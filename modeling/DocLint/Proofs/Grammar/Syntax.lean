import DocLint.Proofs.Grammar.Parameters

/-!
# Syntax trees

A file is a list of statements.  A statement is a line, or a line ending in a colon with the block
that belongs to it, or the definition of a function or a class.  The trees keep the tokens that they
are written with, and what a tree requires of its tokens is part of the tree.

* `Statement.tokens`, `ModuleTree.tokens`: a tree as it is written, each logical line ended by a
  newline and each block between an indent and a dedent.
-/

namespace DocLint

/-! ### Lines and headers -/

/-- A line that defines nothing.  It is compound if it ends in a colon. -/
structure StatementLine (compound : Bool) where
  contents : List Token
  newline : Mark .newline
  contents_ne_nil : contents ≠ []
  plain : ∀ t ∈ contents, t.isPlain = true
  no_semicolon : ∀ t ∈ contents, t.kind ≠ .semicolon
  no_def : ∀ t ∈ contents, t.kind ≠ .keyword .kDef
  no_class : ∀ t ∈ contents, t.kind ≠ .keyword .kClass
  undecorated : ∀ t ∈ contents.head?, t.kind ≠ .atSign
  isCompound_eq : Scanner.isCompound contents = compound

def StatementLine.tokens {compound : Bool} (line : StatementLine compound) : List Token :=
  line.contents ++ [line.newline.token]

/-- A line above a definition that begins with an at sign. -/
structure Decorator where
  sign : Sign .atSign
  contents : List Token
  newline : Mark .newline
  plain : ∀ t ∈ contents, t.isPlain = true

namespace Decorator

def tokens (d : Decorator) : List Token := d.sign.token :: (d.contents ++ [d.newline.token])

/-- The name that a decorator begins with. -/
def name? (d : Decorator) : Option Bytes :=
  (d.contents.head?.filter fun t => t.kind == .identifier).map Token.text

end Decorator

/-- The kinds that do not end the annotation of a result. -/
def isInResult (kind : TokenKind) : Bool := kind != .colon

/-- The annotation of a result. -/
structure ResultClause where
  arrow : Sign .arrow
  run : BalancedRun isInResult

/-- The bases of a class in their parentheses. -/
structure Bases where
  opening : Sign .leftParen
  run : BalancedRun fun _ => true
  closing : Sign .rightParen

/-- What a function definition begins with, up to the colon. -/
structure FunctionHead where
  decorators : List Decorator
  async : Option (Sign (.keyword .kAsync))
  word : Sign (.keyword .kDef)
  name : Sign .identifier
  opening : Sign .leftParen
  parameters : ParameterList
  closing : Sign .rightParen
  result : Option ResultClause
  colon : Sign .colon

/-- What a class definition begins with, up to the colon. -/
structure ClassHead where
  decorators : List Decorator
  word : Sign (.keyword .kClass)
  name : Sign .identifier
  bases : Option Bases
  colon : Sign .colon

def ResultClause.tokens (result : ResultClause) : List Token :=
  result.arrow.token :: result.run.tokens

def Bases.tokens (bases : Bases) : List Token :=
  bases.opening.token :: (bases.run.tokens ++ [bases.closing.token])

namespace FunctionHead

def asyncTokens (head : FunctionHead) : List Token := head.async.elim [] fun sign => [sign.token]

def resultTokens (head : FunctionHead) : List Token := head.result.elim [] ResultClause.tokens

/-- The tokens from the word `def` on. -/
def signature (head : FunctionHead) : List Token :=
  head.word.token :: head.name.token :: head.opening.token ::
    (head.parameters.tokens ++ head.closing.token :: (head.resultTokens ++ [head.colon.token]))

def tokens (head : FunctionHead) : List Token :=
  head.decorators.flatMap Decorator.tokens ++ (head.asyncTokens ++ head.signature)

end FunctionHead

namespace ClassHead

def basesTokens (head : ClassHead) : List Token := head.bases.elim [] Bases.tokens

/-- The tokens from the word `class` on. -/
def signature (head : ClassHead) : List Token :=
  head.word.token :: head.name.token :: (head.basesTokens ++ [head.colon.token])

def tokens (head : ClassHead) : List Token :=
  head.decorators.flatMap Decorator.tokens ++ head.signature

end ClassHead

/-! ### Trees -/

mutual

inductive Statement
  | simple (line : StatementLine false)
  | compound (line : StatementLine true) (body : Block)
  | function (head : FunctionHead) (suite : Suite)
  | classDef (head : ClassHead) (suite : Suite)

/-- What belongs to the header of a definition: a statement on the same line, or a block below. -/
inductive Suite
  | line (only : StatementLine false)
  | block (newline : Mark .newline) (body : Block)

/-- At least one statement, further in than the line above. -/
inductive Block
  | mk (indent : Mark .indent) (first : Statement) (rest : List Statement) (dedent : Mark .dedent)

end

mutual

def Statement.tokens : Statement → List Token
  | .simple line => line.tokens
  | .compound line body => line.tokens ++ body.tokens
  | .function head suite => head.tokens ++ suite.tokens
  | .classDef head suite => head.tokens ++ suite.tokens

def Suite.tokens : Suite → List Token
  | .line only => only.tokens
  | .block newline body => newline.token :: body.tokens

def Block.tokens : Block → List Token
  | .mk indent first rest dedent =>
    indent.token :: (first.tokens ++ (Statement.listTokens rest ++ [dedent.token]))

/-- The tokens of statements one below the other. -/
def Statement.listTokens : List Statement → List Token
  | [] => []
  | s :: rest => s.tokens ++ Statement.listTokens rest

end

/-- The statements that stand directly in a block. -/
def Block.statements : Block → List Statement
  | .mk _ first rest _ => first :: rest

/-- The statements that stand directly in a suite. -/
def Suite.statements : Suite → List Statement
  | .line only => [.simple only]
  | .block _ body => body.statements

/-- A file. -/
structure ModuleTree where
  statements : List Statement
  eof : Mark .eof

def ModuleTree.tokens (tree : ModuleTree) : List Token :=
  Statement.listTokens tree.statements ++ [tree.eof.token]

/-! ### Beginnings -/

theorem Mark.isWritten {kind : TokenKind} (mark : Mark kind) (h : kind.isWritten = true) :
    mark.token.kind.isWritten = true := by
  rw [mark.kind_eq]
  exact h

theorem Mark.kind_ne {kind other : TokenKind} (mark : Mark kind) (h : kind ≠ other) :
    mark.token.kind ≠ other := by
  rw [mark.kind_eq]
  exact h

/-- A function begins with a decorator or with a word. -/
theorem FunctionHead.exists_first (head : FunctionHead) :
    ∃ t tail, head.tokens = t :: tail ∧ t.kind.isWritten = true ∧ t.kind ≠ .string := by
  rw [tokens]
  cases head.decorators with
  | cons d decorators =>
      exact ⟨d.sign.token, _, rfl, d.sign.isWritten rfl, d.sign.kind_ne (by decide)⟩
  | nil =>
      rw [asyncTokens]
      cases head.async with
      | some sign => exact ⟨sign.token, _, rfl, sign.isWritten rfl, sign.kind_ne (by decide)⟩
      | none =>
          exact ⟨head.word.token, _, rfl, head.word.isWritten rfl, head.word.kind_ne (by decide)⟩

/-- A class begins with a decorator or with a word. -/
theorem ClassHead.exists_first (head : ClassHead) :
    ∃ t tail, head.tokens = t :: tail ∧ t.kind.isWritten = true ∧ t.kind ≠ .string := by
  rw [tokens]
  cases head.decorators with
  | cons d decorators =>
      exact ⟨d.sign.token, _, rfl, d.sign.isWritten rfl, d.sign.kind_ne (by decide)⟩
  | nil =>
      exact ⟨head.word.token, _, rfl, head.word.isWritten rfl, head.word.kind_ne (by decide)⟩

theorem FunctionHead.tokens_ne_nil (head : FunctionHead) : head.tokens ≠ [] := by
  obtain ⟨t, tail, htokens, -⟩ := head.exists_first
  rw [htokens]
  exact List.cons_ne_nil t tail

theorem ClassHead.tokens_ne_nil (head : ClassHead) : head.tokens ≠ [] := by
  obtain ⟨t, tail, htokens, -⟩ := head.exists_first
  rw [htokens]
  exact List.cons_ne_nil t tail

theorem StatementLine.exists_first {compound : Bool} (line : StatementLine compound) :
    ∃ t tail, line.contents = t :: tail ∧ t.isPlain = true ∧ t.kind ≠ .atSign ∧
      t.kind ≠ .keyword .kDef ∧ t.kind ≠ .keyword .kClass := by
  obtain ⟨t, tail, hcontents⟩ := List.exists_cons_of_ne_nil line.contents_ne_nil
  have hmem : t ∈ line.contents := by
    rw [hcontents]
    exact List.mem_cons_self
  refine ⟨t, tail, hcontents, line.plain t hmem, ?_, line.no_def t hmem, line.no_class t hmem⟩
  apply line.undecorated
  rw [hcontents]
  rfl

/-- A statement begins with something written. -/
theorem Statement.exists_first (s : Statement) :
    ∃ t tail, s.tokens = t :: tail ∧ t.kind.isWritten = true := by
  cases s with
  | simple line =>
      obtain ⟨t, tail, hcontents, hplain, -⟩ := line.exists_first
      refine ⟨t, tail ++ [line.newline.token], ?_, Token.isWritten_of_isPlain hplain⟩
      rw [tokens, StatementLine.tokens, hcontents, List.cons_append]
  | compound line body =>
      obtain ⟨t, tail, hcontents, hplain, -⟩ := line.exists_first
      refine ⟨t, tail ++ [line.newline.token] ++ body.tokens, ?_,
        Token.isWritten_of_isPlain hplain⟩
      rw [tokens, StatementLine.tokens, hcontents, List.cons_append, List.cons_append]
  | function head suite =>
      obtain ⟨t, tail, htokens, hwritten, -⟩ := head.exists_first
      refine ⟨t, tail ++ suite.tokens, ?_, hwritten⟩
      rw [tokens, htokens, List.cons_append]
  | classDef head suite =>
      obtain ⟨t, tail, htokens, hwritten, -⟩ := head.exists_first
      refine ⟨t, tail ++ suite.tokens, ?_, hwritten⟩
      rw [tokens, htokens, List.cons_append]

theorem Statement.tokens_ne_nil (s : Statement) : s.tokens ≠ [] := by
  obtain ⟨t, tail, htokens, -⟩ := s.exists_first
  rw [htokens]
  exact List.cons_ne_nil t tail

end DocLint
