import DocLint.Proofs.Grammar.Syntax

/-!
# What a syntax tree declares

The declarations of a tree, read off the tree itself: the module, the functions and classes at top
level with the methods of each class behind it, and the constants with a docstring below them.
What stands deeper is not declared, but its words are counted unless a definition is around them.

* `Statement.counts`: the words that a function's body is searched for.
* `Suite.methods`, `Suite.initializer?`: what a class gets from its body.
* `ModuleTree.declarations`: all declarations of a file.
-/

namespace DocLint

open Scanner

/-! ### Places and docstrings -/

/-- Where the first of some tokens begins. -/
def startOf (tokens : List Token) : Position := (tokens.head?.map Token.position).getD {}

/-- From the first token to the end of the last solid one. -/
def spanOf (tokens : List Token) : Span := ⟨startOf tokens, fileStop tokens⟩

/-- The docstring that a line consists of. -/
def StatementLine.docstring? {compound : Bool} (line : StatementLine compound) : Option DocLiteral :=
  match line.contents with
  | [t] =>
    if t.kind == .string && !isExpressionLiteral t.text then some (.ofText t.text t.position)
    else none
  | _ => none

def Statement.docstring? : Statement → Option DocLiteral
  | .simple line => line.docstring?
  | _ => none

/-- The docstring of a definition is the first statement of its suite. -/
def Suite.docstring? (suite : Suite) : Option DocLiteral :=
  suite.statements.head?.bind Statement.docstring?

/-! ### Counts -/

mutual

/-- The words that the body of a function counts; those of a definition inside it are its own. -/
def Statement.counts : Statement → BodyCounts
  | .simple line => countsOf line.contents
  | .compound line body => countsOf line.contents + body.counts
  | .function _ _ => {}
  | .classDef _ _ => {}

def Block.counts : Block → BodyCounts
  | .mk _ first rest _ => first.counts + Statement.listCounts rest

def Statement.listCounts : List Statement → BodyCounts
  | [] => {}
  | s :: rest => s.counts + Statement.listCounts rest

end

def Suite.counts (suite : Suite) : BodyCounts := Statement.listCounts suite.statements

/-! ### Functions and classes -/

/-- The declared name of a definition. -/
def Sign.declaredName (name : Sign .identifier) : DeclaredName := ⟨name.token.text, name.token.span⟩

namespace FunctionHead

/-- The declaration of a function; comments belong to it up to the line of the colon. -/
def declaration (context : ScanContext) (head : FunctionHead) (suite : Suite)
    (form : DeclarationForm) : Declaration where
  form := form
  span := spanOf (head.tokens ++ suite.tokens)
  docstring := suite.docstring?
  noqa := Noqa.codesFor (startOf head.tokens).line head.colon.token.position.line context.comments

def functionDecl (context : ScanContext) (head : FunctionHead) (suite : Suite) : Declaration :=
  head.declaration context suite (.functionDecl head.name.declaredName
    (head.parameters.parameters context.source) suite.counts)

/-- The parameters of a method, without the receiver. -/
def methodParameters (source : Bytes) (head : FunctionHead) : List Parameter :=
  ownParameters .inClass (head.decorators.filterMap Decorator.name?)
    (head.parameters.parameters source)

def methodDecl (context : ScanContext) (head : FunctionHead) (suite : Suite) : Declaration :=
  head.declaration context suite (.methodDecl head.name.declaredName
    (head.methodParameters context.source) suite.counts)

end FunctionHead

/-- The method that a statement of a class declares. -/
def Statement.method? (context : ScanContext) : Statement → Option Declaration
  | .function head suite => some (head.methodDecl context suite)
  | _ => none

/-- The parameters of the initializer that a statement of a class declares. -/
def Statement.initializer? (source : Bytes) : Statement → Option (List Parameter)
  | .function head _ =>
    if head.name.token.text = ascii "__init__" then some (head.methodParameters source) else none
  | _ => none

namespace Suite

/-- The methods of a class: the functions that stand directly in its suite. -/
def methods (context : ScanContext) (suite : Suite) : List Declaration :=
  suite.statements.filterMap (Statement.method? context)

/-- The parameters of the last initializer. -/
def initializer? (source : Bytes) (suite : Suite) : Option (List Parameter) :=
  (suite.statements.filterMap (Statement.initializer? source)).getLast?

end Suite

def ClassHead.classDecl (context : ScanContext) (head : ClassHead) (suite : Suite) :
    Declaration where
  form := .classDecl head.name.declaredName ((suite.initializer? context.source).getD [])
  span := spanOf (head.tokens ++ suite.tokens)
  docstring := suite.docstring?
  noqa := Noqa.codesFor (startOf head.tokens).line head.colon.token.position.line context.comments

/-! ### Constants and files -/

/-- The constant that an assignment declares, given the docstring below it. -/
def StatementLine.constantDecl {compound : Bool} (context : ScanContext)
    (line : StatementLine compound) (name : Token) (literal : DocLiteral) : Declaration where
  form := .constantDecl ⟨name.text, name.span⟩
  span := spanOf line.contents
  docstring := some literal
  noqa := Noqa.codesFor name.position.line line.newline.token.position.line context.comments

/-- The docstring that begins on the line below a newline, if the next statement is one. -/
def docstringBelow? (newline : Token) (next : Option Statement) : Option DocLiteral :=
  next.bind fun s =>
    if (startOf s.tokens).line = newline.position.line + 1 then s.docstring? else none

/-- The constant that a line declares: it assigns to a name, or annotates one, and a docstring
follows. -/
def StatementLine.constant? {compound : Bool} (context : ScanContext) (line : StatementLine compound)
    (next : Option Statement) : Option Declaration :=
  match line.contents.head? with
  | none => none
  | some name =>
    if isAssignment line.contents then
      (docstringBelow? line.newline.token next).map (line.constantDecl context name)
    else none

/-- What a statement at top level declares, given the statement behind it. -/
def Statement.declarations (context : ScanContext) (s : Statement) (next : Option Statement) :
    List Declaration :=
  match s with
  | .simple line => (line.constant? context next).toList
  | .compound _ _ => []
  | .function head suite => [head.functionDecl context suite]
  | .classDef head suite => head.classDecl context suite :: suite.methods context

/-- What the statements at top level declare. -/
def Statement.listDeclarations (context : ScanContext) : List Statement → List Declaration
  | [] => []
  | s :: rest => s.declarations context rest.head? ++ Statement.listDeclarations context rest

namespace ModuleTree

/-- The docstring of a file is its first statement. -/
def docstring? (tree : ModuleTree) : Option DocLiteral :=
  tree.statements.head?.bind Statement.docstring?

/-- The line where the docstring ends, or the first line if there is none. -/
def headLine (tree : ModuleTree) : UInt32 :=
  (tree.docstring?.map fun literal => literal.stop.line).getD (startOf tree.tokens).line

def moduleDecl (context : ScanContext) (tree : ModuleTree) : Declaration where
  form := .moduleDecl
  span := ⟨{}, fileStop tree.tokens⟩
  docstring := tree.docstring?
  noqa := Noqa.codesFor (startOf tree.tokens).line tree.headLine context.comments

/-- All declarations of a file, the module first. -/
def declarations (context : ScanContext) (tree : ModuleTree) : List Declaration :=
  tree.moduleDecl context :: Statement.listDeclarations context tree.statements

end ModuleTree

end DocLint
