import DocLint.Docstring.Literal

/-!
# Declarations

What a source file declares and may document: the module itself, its classes and functions, the
methods of its classes, and its constants.
-/

namespace DocLint

open Bytes

/-- A declared name and where it stands. -/
structure DeclaredName where
  value : Bytes
  span : Span
deriving DecidableEq, Repr

/-- How a parameter takes its arguments. -/
inductive ParameterKind
  | positional
  | varArgs
  | varKeywords
deriving DecidableEq, Repr

/-- A parameter in the header of a function. -/
structure Parameter where
  /-- The name without asterisks. -/
  name : Bytes
  span : Span
  kind : ParameterKind
  /-- The text of the annotation, if one is written. -/
  declaredType : Option Bytes
  /-- The text of the default, if one is written. -/
  defaultValue : Option Bytes
deriving DecidableEq, Repr

/-- How many statements of each kind the body of a function has, nested definitions not counted. -/
structure BodyCounts where
  returns : Nat := 0
  yields : Nat := 0
  raises : Nat := 0
deriving DecidableEq, Repr

namespace BodyCounts

/-- The counts of two pieces of a body together. -/
def add (a b : BodyCounts) : BodyCounts :=
  ⟨a.returns + b.returns, a.yields + b.yields, a.raises + b.raises⟩

instance : Add BodyCounts := ⟨add⟩

end BodyCounts

/-- What is declared. -/
inductive DeclarationForm
  | moduleDecl
  /-- A class, with the parameters of its initializer. -/
  | classDecl (name : DeclaredName) (parameters : List Parameter)
  | functionDecl (name : DeclaredName) (parameters : List Parameter) (counts : BodyCounts)
  /-- A method, its receiver not among the parameters. -/
  | methodDecl (name : DeclaredName) (parameters : List Parameter) (counts : BodyCounts)
  | constantDecl (name : DeclaredName)
deriving DecidableEq, Repr

namespace DeclarationForm

/-- What messages call the kind of declaration. -/
def kindName : DeclarationForm → Bytes
  | moduleDecl => ascii "module"
  | classDecl _ _ => ascii "class"
  | functionDecl _ _ _ => ascii "function"
  | methodDecl _ _ _ => ascii "method"
  | constantDecl _ => ascii "constant"

/-- The declared name; a module has none. -/
def name? : DeclarationForm → Option DeclaredName
  | moduleDecl => none
  | classDecl name _ => some name
  | functionDecl name _ _ => some name
  | methodDecl name _ _ => some name
  | constantDecl name => some name

/-- The declared parameters, none for modules and constants. -/
def parameters : DeclarationForm → List Parameter
  | classDecl _ parameters => parameters
  | functionDecl _ parameters _ => parameters
  | methodDecl _ parameters _ => parameters
  | _ => []

/-- The counts of the body, zero for what has none. -/
def counts : DeclarationForm → BodyCounts
  | functionDecl _ _ counts => counts
  | methodDecl _ _ counts => counts
  | _ => {}

/-- Functions and methods. -/
def isCallable : DeclarationForm → Bool
  | functionDecl _ _ _ => true
  | methodDecl _ _ _ => true
  | _ => false

/-- Functions, methods and classes: their parameters are to be documented. -/
def takesParameters : DeclarationForm → Bool
  | classDecl _ _ => true
  | form => form.isCallable

end DeclarationForm

/-- The names with a meaning of their own, without the underscores around them. -/
def magicStems : List String :=
  ["abs", "add", "aenter", "aexit", "aiter", "and", "anext", "await", "bool", "bytes", "call",
    "ceil", "class", "class_getitem", "contains", "copy", "deepcopy", "del", "delattr", "delitem",
    "dir", "divmod", "doc", "enter", "eq", "exit", "float", "floor", "floordiv", "format", "ge",
    "getattr", "getattribute", "getitem", "getnewargs", "gt", "hash", "index", "init",
    "init_subclass", "int", "invert", "iter", "le", "len", "lshift", "lt", "matmul", "missing",
    "mod", "mul", "ne", "neg", "new", "next", "or", "pos", "pow", "radd", "rand", "rdivmod",
    "reduce", "reduce_ex", "repr", "reversed", "rfloordiv", "rlshift", "rmod", "rmul", "ror",
    "round", "rpow", "rrshift", "rshift", "rsub", "rtruediv", "rxor", "set_name", "setattr",
    "setitem", "sizeof", "str", "sub", "subclasshook", "truediv", "trunc", "xor"]

/-- The names with a meaning of their own. -/
def magicNames : List Bytes := magicStems.map fun stem => ascii "__" ++ ascii stem ++ ascii "__"

/-- The name has a meaning of its own. -/
def isMagicName (name : Bytes) : Bool := magicNames.contains name

/-- A unit of a source file that is or may be documented. -/
structure Declaration where
  form : DeclarationForm
  /-- The whole declaration. -/
  span : Span
  docstring : Option DocLiteral := none
  /-- The codes that comments suppress for the declaration. -/
  noqa : List Bytes := []
deriving DecidableEq, Repr

namespace Declaration

/-- The declared name; a module has none. -/
def name? (d : Declaration) : Option DeclaredName := d.form.name?

/-- Where findings about the declaration itself are placed: at the name, else at its beginning. -/
def anchor (d : Declaration) : Span :=
  match d.name? with
  | some name => name.span
  | none => .point d.span.start

/-- The declared parameters. -/
def parameters (d : Declaration) : List Parameter := d.form.parameters

/-- The parameter of a name. -/
def parameter? (d : Declaration) (name : Bytes) : Option Parameter :=
  d.parameters.find? fun p => p.name == name

/-- The declared name has a meaning of its own. -/
def isMagic (d : Declaration) : Bool := d.name?.any fun name => isMagicName name.value

/-- The declared name begins with an underscore, and has no meaning of its own. -/
def isPrivate (d : Declaration) : Bool :=
  (d.name?.any fun name => startsWith name.value (ascii "_")) && !d.isMagic

/-- A comment suppresses the code for the declaration. -/
def suppresses (d : Declaration) (code : Bytes) : Bool := d.noqa.contains code

end Declaration

end DocLint
