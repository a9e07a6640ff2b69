import DocLint.Source.Lexer
import DocLint.Source.Noqa
import DocLint.Source.ParameterItem

/-!
# The declaration scanner

The scanner walks over the tokens of a file and lists its declarations: the module first, then the
functions and classes at top level, each class followed by its methods, and the constants of the
module that a docstring follows.  Other statements are passed over, except that the `return`, `yield`
and `raise` words of a function's body are counted.  A fault makes the scanner go on behind the line,
unless it is fatal: then the scan breaks off, and there is no answer but the faults reported so far.

* `length_functionHeader_lt`, `length_classHeader_lt`, `length_decorators_le`: every construct that
  is read leaves fewer tokens, so that the scanner ends.
-/

namespace DocLint

open Bytes

/-- What surrounds a statement. -/
inductive ScopeKind
  | atModule
  | inClass
  | inFunction
  /-- The body of a compound statement outside functions. -/
  | inBlock
deriving DecidableEq, Repr

/-- Where a statement stands, and whether its definitions are collected. -/
structure Scope where
  kind : ScopeKind
  collected : Bool
deriving DecidableEq, Repr

/-- What some statements contribute to the scope that they stand in. -/
structure Findings where
  declarations : List Declaration := []
  counts : BodyCounts := {}
  /-- The parameters of the last initializer among the statements. -/
  initializer : Option (List Parameter) := none
  faults : List Fault := []
deriving DecidableEq, Repr

namespace Findings

/-- The findings of some statements and of those behind them. -/
def append (a b : Findings) : Findings where
  declarations := a.declarations ++ b.declarations
  counts := a.counts + b.counts
  initializer := b.initializer.or a.initializer
  faults := a.faults ++ b.faults

instance : Append Findings := ⟨append⟩

/-- Nothing but faults. -/
def ofFaults (faults : List Fault) : Findings := { faults }

end Findings

/-- The file that is scanned, apart from its tokens. -/
structure ScanContext where
  source : Bytes
  comments : List Comment
deriving DecidableEq, Repr

namespace Scanner

/-! ### Docstring statements -/

/-- The literal is an expression of bytes or a format, which documents nothing. -/
def isExpressionLiteral (text : Bytes) : Bool :=
  (text.takeWhile fun c => !isQuote c).any fun c =>
    lowerByte c == byte 'b' || lowerByte c == byte 'f'

/-- The docstring statement that the cursor stands at, and the place behind it. -/
def docstring? (c : TokenCursor) : Option (DocLiteral × TokenCursor) :=
  match c.after with
  | [] => none
  | t :: _ =>
    let ends := c.kindAt 1 == .newline || c.kindAt 1 == .semicolon || c.kindAt 1 == .eof
    if t.kind == .string && ends && !isExpressionLiteral t.text then
      some (.ofText t.text t.position, (c.advance.skipIf .semicolon).skipIf .newline)
    else none

theorem length_docstring?_lt {c next : TokenCursor} {literal : DocLiteral}
    (h : docstring? c = some (literal, next)) : next.length < c.length := by
  unfold docstring? at h
  split at h
  · cases h
  next t rest hafter =>
    dsimp only at h
    split at h
    · cases h
      have hpos : 0 < c.length := by simp [TokenCursor.length, hafter]
      have h1 := TokenCursor.length_skipIf_le (c.advance.skipIf .semicolon) .newline
      have h2 := TokenCursor.length_skipIf_le c.advance .semicolon
      simp only [TokenCursor.length_advance] at h2
      omega
    · cases h

/-! ### Headers -/

/-- The lines of decorators in front of a definition: the names that they begin with, and the place
behind them. -/
def decorators (c : TokenCursor) : List Bytes × TokenCursor :=
  if c.isAt .atSign then
    let here := c.advance
    let name := match here.after with
      | [] => []
      | t :: _ => if t.kind = .identifier then [t.text] else []
    let more := decorators here.skipLine
    (name ++ more.1, more.2)
  else ([], c)
termination_by c.length
decreasing_by
  rename_i h
  have := TokenCursor.length_advance_lt h (by decide)
  simp only [TokenCursor.skipLine, TokenCursor.length_skip]
  omega

theorem length_decorators_le (c : TokenCursor) : (decorators c).2.length ≤ c.length := by
  fun_induction decorators c with
  | case1 c _ here _ more ih =>
    have h1 : here.skipLine.length ≤ c.length := by
      simp only [TokenCursor.skipLine, TokenCursor.length_skip, here, TokenCursor.length_advance]
      omega
    exact Nat.le_trans ih h1
  | case2 => exact Nat.le_refl _

/-- The place behind the word `async`, where that stands in front of `def`. -/
def skipAsync (c : TokenCursor) : TokenCursor :=
  if c.isAt (.keyword .kAsync) && c.kindAt 1 == .keyword .kDef then c.advance else c

theorem length_skipAsync_le (c : TokenCursor) : (skipAsync c).length ≤ c.length := by
  unfold skipAsync
  split <;> simp

/-- A header that has been read, unless it is refused, with its faults and the place behind it. -/
structure HeaderScan (α : Type) where
  header : Option α
  faults : List Fault
  rest : TokenCursor

/-- The header of a function. -/
structure FunctionHeader where
  name : DeclaredName
  parameters : List Parameter
  /-- The line of the colon that ends it. -/
  lastLine : UInt32
deriving DecidableEq, Repr

/-- The header of a class. -/
structure ClassHeader where
  name : DeclaredName
  lastLine : UInt32
deriving DecidableEq, Repr

/-- A header refused for one more fault; the scanner goes on behind the line. -/
def refuse {α : Type} (faults : List Fault) (fault : Fault) (c : TokenCursor) : HeaderScan α :=
  ⟨none, faults ++ [fault], c.skipLine⟩

/-- Reads the colon that ends a header. -/
def endHeader {α : Type} (faults : List Fault) (header : UInt32 → α) (c : TokenCursor) :
    HeaderScan α :=
  if c.isAt .colon then ⟨some (header c.position.line), faults, c.advance⟩
  else refuse faults (c.expectedKind .colon) c

/-- Reads the parameters behind the opening parenthesis, the closing one included. -/
def parameterList (source : Bytes) (c : TokenCursor) : List Parameter × List Fault × TokenCursor :=
  let length := TokenCursor.listLength 0 c.after
  let items := splitItems (c.after.take length)
  let behind := c.skip length
  let unclosed := if behind.isAt .rightParen then [] else [behind.expectedKind .rightParen]
  (Parameter.ofItems source items, Parameter.faultsOf source items ++ unclosed,
    behind.skipIf .rightParen)

/-- Reads the annotation of the result, if there is one. -/
def skipResult (c : TokenCursor) : TokenCursor :=
  if c.isAt .arrow then
    let behind := c.advance
    behind.skip (TokenCursor.headLength 0 behind.after)
  else c

/-- Reads the bases of a class, if they are written. -/
def classBases (c : TokenCursor) : TokenCursor :=
  if c.isAt .leftParen then c.skip (TokenCursor.groupLength 0 c.after) else c

/-- Reads the header of a function, from the word `def` on. -/
def functionHeader (source : Bytes) (c : TokenCursor) : HeaderScan FunctionHeader :=
  let here := c.advance
  match here.after with
  | [] => refuse [] (here.expected "function name") here
  | t :: _ =>
    if t.kind = .identifier then
      let opening := here.advance
      if opening.isAt .leftParen then
        let (parameters, faults, behind) := parameterList source opening.advance
        endHeader faults (fun lastLine => ⟨⟨t.text, t.span⟩, parameters, lastLine⟩)
          (skipResult behind)
      else refuse [] (opening.expectedKind .leftParen) opening
    else refuse [] (here.expected "function name") here

/-- Reads the header of a class, from the word `class` on. -/
def classHeader (c : TokenCursor) : HeaderScan ClassHeader :=
  let here := c.advance
  match here.after with
  | [] => refuse [] (here.expected "class name") here
  | t :: _ =>
    if t.kind = .identifier then
      endHeader [] (fun lastLine => ⟨⟨t.text, t.span⟩, lastLine⟩) (classBases here.advance)
    else refuse [] (here.expected "class name") here

theorem length_endHeader_lt {α : Type} {faults : List Fault} {make : UInt32 → α} {c : TokenCursor}
    {header : α} (h : (endHeader faults make c).header = some header) :
    (endHeader faults make c).rest.length < c.length := by
  unfold endHeader at h ⊢
  split at h
  next hcolon => simpa [hcolon] using TokenCursor.length_advance_lt hcolon (by decide)
  · cases h

theorem length_parameterList_le (source : Bytes) (c : TokenCursor) :
    (parameterList source c).2.2.length ≤ c.length := by
  have h := TokenCursor.length_skipIf_le (c.skip (TokenCursor.listLength 0 c.after)) .rightParen
  simp only [TokenCursor.length_skip] at h
  simp only [parameterList]
  omega

theorem length_skipResult_le (c : TokenCursor) :
    (skipResult c).length ≤ c.length := by
  unfold skipResult
  split
  · simp only [TokenCursor.length_skip, TokenCursor.length_advance]
    omega
  · exact Nat.le_refl _

theorem length_classBases_le (c : TokenCursor) : (classBases c).length ≤ c.length := by
  unfold classBases
  split <;> simp

/-- An accepted function header has tokens of its own. -/
theorem length_functionHeader_lt {source : Bytes} {c : TokenCursor} {header : FunctionHeader}
    (h : (functionHeader source c).header = some header) :
    (functionHeader source c).rest.length < c.length := by
  unfold functionHeader at h ⊢
  dsimp only at h ⊢
  split at h
  · cases h
  · split at h
    · split at h
      next hname hopen =>
        simp only [hname, hopen, if_true] at h ⊢
        have h1 := length_endHeader_lt h
        have h2 := length_skipResult_le
          (parameterList source c.advance.advance.advance).2.2
        have h3 := length_parameterList_le source c.advance.advance.advance
        simp only [TokenCursor.length_advance] at h3
        exact Nat.lt_of_lt_of_le h1 (Nat.le_trans h2 (by omega))
      · cases h
    · cases h

/-- An accepted class header has tokens of its own. -/
theorem length_classHeader_lt {c : TokenCursor} {header : ClassHeader}
    (h : (classHeader c).header = some header) : (classHeader c).rest.length < c.length := by
  unfold classHeader at h ⊢
  dsimp only at h ⊢
  split at h
  · cases h
  · split at h
    next hname =>
      simp only [hname, if_true] at h ⊢
      have h1 := length_endHeader_lt h
      have h2 := length_classBases_le c.advance.advance
      simp only [TokenCursor.length_advance] at h2
      omega
    · cases h

/-! ### Simple statements -/

/-- The tokens of a simple statement. -/
def statementTokens (c : TokenCursor) : List Token := c.after.takeWhile fun t => t.kind != .newline

/-- The place behind the tokens of a simple statement, in front of the newline. -/
def statementEnd (c : TokenCursor) : TokenCursor := c.skip (statementTokens c).length

/-- The words among the tokens that the body of a function counts. -/
def countsOf (tokens : List Token) : BodyCounts where
  returns := tokens.countP fun t => t.kind == .keyword .kReturn
  yields := tokens.countP fun t => t.kind == .keyword .kYield
  raises := tokens.countP fun t => t.kind == .keyword .kRaise

/-- The statement ends in a colon, so that a block belongs to it. -/
def isCompound (tokens : List Token) : Bool := tokens.getLast?.any fun t => t.kind == .colon

/-- The statement assigns to, or annotates, a name. -/
def isAssignment (tokens : List Token) : Bool :=
  match tokens with
  | name :: t :: _ => name.kind == .identifier && (t.kind == .assign || t.kind == .colon)
  | _ => false

/-- The documented constant that a simple statement at `c` declares: the docstring must stand on the
line below. -/
def constant? (context : ScanContext) (c : TokenCursor) : Option (Declaration × TokenCursor) :=
  let stop := statementEnd c
  let behind := stop.skipIf .newline
  match c.after with
  | [] => none
  | name :: _ =>
    if isAssignment c.after && behind.position.line == stop.position.line + 1 then
      (docstring? behind).map fun (literal, rest) =>
        ({ form := .constantDecl ⟨name.text, name.span⟩
           span := ⟨name.position, stop.lastStop⟩
           docstring := some literal
           noqa := Noqa.codesFor name.position.line stop.position.line context.comments }, rest)
    else none

/-! ### Definitions -/

/-- The parameters of a function in some scope: a method's receiver is left out, unless it is
static. -/
def ownParameters (kind : ScopeKind) (decorators : List Bytes) (parameters : List Parameter) :
    List Parameter :=
  match parameters with
  | [] => []
  | first :: rest =>
    if kind == .inClass && !decorators.contains (ascii "staticmethod") &&
        first.kind == .positional then rest
    else first :: rest

/-- What a function definition contributes to its scope. -/
def functionFindings (context : ScanContext) (scope : Scope) (start : Position)
    (header : FunctionHeader) (parameters : List Parameter) (docstring : Option DocLiteral)
    (counts : BodyCounts) (stop : Position) : Findings :=
  let isMethod := scope.kind = .inClass
  let form : DeclarationForm :=
    if isMethod then .methodDecl header.name parameters counts
    else .functionDecl header.name parameters counts
  { declarations :=
      if scope.collected then
        [{ form, span := ⟨start, stop⟩, docstring,
           noqa := Noqa.codesFor start.line header.lastLine context.comments }]
      else []
    initializer :=
      if isMethod ∧ header.name.value = ascii "__init__" then some parameters else none }

/-- Only a class at top level is collected, together with its methods. -/
def isCollectedClass (scope : Scope) : Bool := scope.collected && scope.kind == .atModule

/-- What a class definition contributes to its scope, given what its body found. -/
def classFindings (context : ScanContext) (scope : Scope) (start : Position) (header : ClassHeader)
    (docstring : Option DocLiteral) (body : Findings) (stop : Position) : Findings :=
  if isCollectedClass scope then
    { declarations :=
        { form := .classDecl header.name (body.initializer.getD [])
          span := ⟨start, stop⟩
          docstring
          noqa := Noqa.codesFor start.line header.lastLine context.comments } ::
          body.declarations }
  else {}

/-- The scope of a compound statement's block. -/
def blockScope (scope : Scope) : Scope :=
  ⟨if scope.kind = .inFunction then .inFunction else .inBlock, false⟩

/-! ### Statements -/

theorem length_statementEnd_le (c : TokenCursor) :
    ((statementEnd c).skipIf .newline).length ≤ c.length := by
  have := TokenCursor.length_skipIf_le (statementEnd c) .newline
  simp only [statementEnd, TokenCursor.length_skip] at this ⊢
  omega

mutual

/-- Scans one statement. -/
def statement (context : ScanContext) (scope : Scope) (c : TokenCursor) : Findings × TokenCursor :=
  if c.isAt .newline || c.isAt .dedent then ({}, c.advance)
  else if c.isAt .indent then block context scope c.advance
  else
    let decorated := decorators c
    let here := skipAsync decorated.2
    if here.isAt (.keyword .kDef) then functionDef context scope decorated.1 c.position here
    else if here.isAt (.keyword .kClass) then classDef context scope c.position here
    else
      let missing :=
        if decorated.1.isEmpty then []
        else [here.expected "function or class definition after decorator"]
      let result := simpleStatement context scope here
      (.ofFaults missing ++ result.1, result.2)
termination_by (c.length, 2)
decreasing_by
  · rename_i h
    exact Prod.Lex.left _ _ (TokenCursor.length_advance_lt h (by decide))
  all_goals
    have hle : here.length ≤ c.length :=
      Nat.le_trans (length_skipAsync_le _) (length_decorators_le c)
    rcases Nat.lt_or_eq_of_le hle with hlt | heq
    · exact Prod.Lex.left _ _ hlt
    · rw [heq]
      exact Prod.Lex.right _ (by decide)

/-- Scans a function definition, from the word `def` on. -/
def functionDef (context : ScanContext) (scope : Scope) (decorators : List Bytes) (start : Position)
    (c : TokenCursor) : Findings × TokenCursor :=
  let scan := functionHeader context.source c
  match _h : scan.header with
  | none => (.ofFaults scan.faults, scan.rest)
  | some header =>
    let parameters := ownParameters scope.kind decorators header.parameters
    let body := suite context ⟨.inFunction, false⟩ scan.rest
    let found := functionFindings context scope start header parameters body.1 body.2.1.counts
      body.2.2.lastStop
    (.ofFaults (scan.faults ++ body.2.1.faults) ++ found, body.2.2)
termination_by (c.length, 0)
decreasing_by exact Prod.Lex.left _ _ (length_functionHeader_lt _h)

/-- Scans a class definition, from the word `class` on. -/
def classDef (context : ScanContext) (scope : Scope) (start : Position) (c : TokenCursor) :
    Findings × TokenCursor :=
  let scan := classHeader c
  match _h : scan.header with
  | none => (.ofFaults scan.faults, scan.rest)
  | some header =>
    let body := suite context ⟨.inClass, isCollectedClass scope⟩ scan.rest
    let found := classFindings context scope start header body.1 body.2.1 body.2.2.lastStop
    (.ofFaults (scan.faults ++ body.2.1.faults) ++ found, body.2.2)
termination_by (c.length, 0)
decreasing_by exact Prod.Lex.left _ _ (length_classHeader_lt _h)

/-- Scans a statement that defines nothing, with the block that belongs to it. -/
def simpleStatement (context : ScanContext) (scope : Scope) (c : TokenCursor) :
    Findings × TokenCursor :=
  let tokens := statementTokens c
  let behind := (statementEnd c).skipIf .newline
  if isCompound tokens && behind.isAt .indent then
    -- The definitions in the block are not collected, but its statements are counted.
    let body := block context (blockScope scope) behind.advance
    ({ counts := countsOf tokens } ++ body.1, body.2)
  else
    let found := if scope.kind == .atModule && scope.collected then constant? context c else none
    match found with
    | none => ({ counts := countsOf tokens }, behind)
    | some (declaration, rest) =>
      ({ declarations := [declaration], counts := countsOf tokens }, rest)
termination_by (c.length, 0)
decreasing_by
  rename_i h
  simp only [Bool.and_eq_true] at h
  have h1 := TokenCursor.length_advance_lt h.2 (by decide)
  have h2 := length_statementEnd_le c
  exact Prod.Lex.left _ _ (Nat.lt_of_lt_of_le h1 h2)

/-- Scans what belongs to a header: an indented block, or one statement on the same line.  It may
begin with a docstring. -/
def suite (context : ScanContext) (scope : Scope) (c : TokenCursor) :
    Option DocLiteral × Findings × TokenCursor :=
  if c.isAt .newline then
    let here := c.advance
    if here.isAt .indent then
      match _h : docstring? here.advance with
      | some (literal, rest) =>
        let body := block context scope rest
        (some literal, body.1, body.2)
      | none =>
        let body := block context scope here.advance
        (none, body.1, body.2)
    else (none, .ofFaults [here.expected "an indented block"], here)
  else
    match _h : docstring? c with
    | some (literal, rest) =>
      -- A semicolon behind the docstring leaves the rest of the line to be scanned.
      if rest.atEnd || rest.before.head?.any (fun t => t.kind == .newline) then
        (some literal, {}, rest)
      else
        let body := simpleStatement context scope rest
        (some literal, body.1, body.2)
    | none =>
      if c.atEnd then (none, {}, c)
      else
        let body := simpleStatement context scope c
        (none, body.1, body.2)
termination_by (c.length, 1)
decreasing_by
  · rename_i hnewline _
    have h1 := TokenCursor.length_advance_lt hnewline (by decide)
    have h2 := length_docstring?_lt _h
    simp only [here, TokenCursor.length_advance] at h1 h2
    exact Prod.Lex.left _ _ (by omega)
  · rename_i hnewline _
    have h1 := TokenCursor.length_advance_lt hnewline (by decide)
    simp only [TokenCursor.length_advance] at h1 ⊢
    exact Prod.Lex.left _ _ (by omega)
  · exact Prod.Lex.left _ _ (length_docstring?_lt _h)
  · exact Prod.Lex.right _ (by decide)

/-- Scans statements up to the end of the block. -/
def block (context : ScanContext) (scope : Scope) (c : TokenCursor) : Findings × TokenCursor :=
  if c.isAt .dedent || c.atEnd then ({}, c.skipIf .dedent)
  else
    let first := statement context scope c
    if first.2.length < c.length then
      let more := block context scope first.2
      (first.1 ++ more.1, more.2)
    else first
termination_by (c.length, 3)
decreasing_by
  · exact Prod.Lex.right _ (by decide)
  · rename_i h
    exact Prod.Lex.left _ _ h

end

/-- Scans all statements of a file. -/
def statements (context : ScanContext) (c : TokenCursor) : Findings :=
  if c.atEnd then {}
  else
    let first := statement context ⟨.atModule, true⟩ c
    if first.2.length < c.length then first.1 ++ statements context first.2 else first.1
termination_by c.length

/-- Where the last solid token of a file ends, or the beginning of the file if there is none. -/
def fileStop (tokens : List Token) : Position :=
  match tokens.reverse.find? Token.isSolid with
  | some t => t.stop
  | none => {}

end Scanner

/-- A scanned source text.  If there is a fatal fault, the program does not come to what is behind it;
`ScanOutcome` tells what it comes to. -/
structure ScannedSource where
  declarations : List Declaration
  faults : List Fault
deriving DecidableEq, Repr

/-- How the scan of a source text ends. -/
inductive ScanOutcome
  /-- The text has been read to its end. -/
  | finished (scanned : ScannedSource)
  /-- The scan has broken off at a severed text, after it has reported these faults.  An exception that
  nothing catches ends the program. -/
  | broken (reported : List Fault)
  /-- The end of the text is never found. -/
  | endless
deriving DecidableEq, Repr

namespace ScannedSource

open Scanner

/-- Scans the tokens of a file: its docstring first, which makes up the module, then its
statements. -/
def ofTokens (context : ScanContext) (tokens : List Token) : ScannedSource :=
  let first := TokenCursor.ofTokens tokens
  let firstLine := first.position.line
  let (docstring, lastLine, rest) := match docstring? first with
    | some (literal, rest) => (some literal, literal.stop.line, rest)
    | none => (none, firstLine, first)
  let moduleDecl : Declaration :=
    { form := .moduleDecl
      span := ⟨{}, fileStop tokens⟩
      docstring
      noqa := Noqa.codesFor firstLine lastLine context.comments }
  let found := statements context rest
  ⟨moduleDecl :: found.declarations, found.faults⟩

/-- Scans a source text. -/
def ofSource (source : Bytes) : ScannedSource :=
  let lexed := LexedSource.ofSource source
  let scanned := ofTokens ⟨source, lexed.comments⟩ lexed.tokens
  ⟨scanned.declarations, lexed.faults ++ scanned.faults⟩

/-- The scan has come to a fatal fault. -/
def isBroken (s : ScannedSource) : Bool := s.faults.any Fault.isFatal

/-- The faults in front of the first fatal one. -/
def reported (s : ScannedSource) : List Fault := s.faults.takeWhile fun f => !f.isFatal

/-- What becomes of a scan: it is finished, unless it has broken off. -/
def outcome (s : ScannedSource) : ScanOutcome :=
  if s.isBroken then .broken s.reported else .finished s

/-- The source text has no faults. -/
def isAccepted (s : ScannedSource) : Bool := s.faults.isEmpty

/-- What is said about a source text with faults. -/
def refusal (path : Bytes) (s : ScannedSource) : Bytes :=
  path ++ ascii ": could not parse (" ++ decimal s.faults.length ++ ascii " errors)"

end ScannedSource

/-- What becomes of the scan of a source text. -/
def ScanOutcome.ofSource (source : Bytes) : ScanOutcome :=
  match LexedSource.ofSource? source with
  | none => .endless
  | some _ => (ScannedSource.ofSource source).outcome

end DocLint
