import DocLint.Proofs.Grammar.Scan
import Mathlib

/-!
# Scanning a file

At top level a docstring below an assignment is read together with it, and the docstring of the file
is read before all statements.  Neither changes what the rest of the file declares: a docstring
alone contributes nothing.

* `statement_top`: a statement at top level is read, perhaps with the docstring below it.
* `statements_listTokens`: the statements of a file are read one after the other.
* `ofTokens_tokens`: scanning the tokens of a syntax tree gives the declarations of the tree.
-/

namespace DocLint

open Scanner TokenCursor

variable {context : ScanContext} {c : TokenCursor} {rest : List Token}

/-- The scope of the statements at top level. -/
def Scope.top : Scope := ⟨.atModule, true⟩

/-! ### Constants -/

/-- The first two tokens tell an assignment. -/
theorem isAssignment_line {compound : Bool} (line : StatementLine compound)
    (h : c.after = line.tokens ++ rest) : isAssignment c.after = isAssignment line.contents := by
  rw [h, StatementLine.tokens, List.append_assoc]
  obtain ⟨t, tail, hcontents⟩ := List.exists_cons_of_ne_nil line.contents_ne_nil
  rw [hcontents]
  cases tail with
  | nil => simp [isAssignment, line.newline.kind_eq]
  | cons u tail => rfl

/-- The docstring behind a line counts for it if it begins on the line below. -/
theorem docstring?_below (newline : Token) (l : List Statement)
    (h : c.after = Statement.listTokens l) :
    (if c.position.line == newline.position.line + 1 then Scanner.docstring? c else none) =
      (docstringBelow? newline l.head?).map fun literal =>
        (literal, c.past (Statement.listTokens (l.take 1))) := by
  cases l with
  | nil =>
      have hnone : Scanner.docstring? c = none := by
        rw [Statement.listTokens] at h
        simp [Scanner.docstring?, h]
      simp [hnone, docstringBelow?]
  | cons s l =>
      have hposition : c.position = startOf s.tokens := position_eq_startOf h s.tokens_ne_nil
      have hscan := docstring?_statement s h
      have htake : Statement.listTokens ((s :: l).take 1) = s.tokens := List.append_nil _
      rw [hposition, hscan, htake, List.head?_cons, docstringBelow?, Option.bind_some]
      by_cases hline : (startOf s.tokens).line = newline.position.line + 1
      · simp [hline]
      · simp [hline]

/-- A line declares the constant that the tree says, and takes the docstring below it along. -/
theorem constant?_line {compound : Bool} (line : StatementLine compound) (l : List Statement)
    (h : c.after = line.tokens ++ Statement.listTokens l) :
    Scanner.constant? context c = (line.constant? context l.head?).map fun declaration =>
      (declaration, c.past (line.tokens ++ Statement.listTokens (l.take 1))) := by
  obtain ⟨t, tail, hcontents⟩ := List.exists_cons_of_ne_nil line.contents_ne_nil
  have hafter : c.after = t :: (tail ++ line.newline.token :: Statement.listTokens l) := by
    simp [h, StatementLine.tokens, hcontents]
  have hend := after_statementEnd_line line h
  have hstop : (statementEnd c).lastStop = fileStop line.contents := by
    have hcut : c.after = line.contents ++ (line.newline.token :: Statement.listTokens l) := by
      simp [h, StatementLine.tokens]
    obtain ⟨t, tail, hfirst, hplain, -⟩ := line.exists_first
    rw [statementEnd_line line h]
    refine lastStop_past hcut ⟨t, ?_, Token.isSolid_of_isPlain hplain⟩
    rw [hfirst]
    exact List.mem_cons_self
  have hbelow := docstring?_below line.newline.token l (after_past h)
  have hspan : spanOf line.contents = ⟨t.position, fileStop line.contents⟩ := by
    rw [spanOf, hcontents]
    rfl
  rw [Scanner.constant?, skipIf_newline_line line h, hstop, position_eq hend,
    isAssignment_line line h, StatementLine.constant?, past_append]
  have hhead : line.contents.head? = some t := by
    rw [hcontents]
    rfl
  simp only [hafter, hhead]
  cases hassign : isAssignment line.contents with
  | false => simp
  | true =>
      cases hline : (c.past line.tokens).position.line == line.newline.token.position.line + 1 with
      | false =>
          rw [hline] at hbelow
          have hnone := Option.map_eq_none_iff.1 hbelow.symm
          simp [hnone]
      | true =>
          rw [hline, if_pos rfl] at hbelow
          simp only [hbelow, Bool.and_self, if_true, Option.map_map]
          rw [← hspan]
          rfl

/-! ### Statements at top level -/

/-- Constants apart, a statement at top level contributes what the tree says. -/
theorem findings_top (s : Statement) (next : Option Statement)
    (hs : ∀ line, s ≠ .simple line) :
    s.findings context Scope.top =
      { declarations := s.declarations context next, counts := s.counts } := by
  cases s with
  | simple line => exact absurd rfl (hs line)
  | compound line body => simp [Statement.findings, Statement.declarations, Statement.counts]
  | function head suite =>
      simp [Statement.findings, Statement.declarations, Statement.counts, Scope.top]
  | classDef head suite =>
      simp [Statement.findings, Statement.declarations, Statement.counts, Scope.top,
        isCollectedClass]

/-- What is read along with a statement: the docstring of a constant. -/
def Statement.taken (context : ScanContext) (s : Statement) (l : List Statement) : List Statement :=
  match s with
  | .simple line => if (line.constant? context l.head?).isSome then l.take 1 else []
  | _ => []

theorem docstring?_of_below {newline : Token} {next : Option Statement} {literal : DocLiteral}
    (h : docstringBelow? newline next = some literal) :
    next.bind Statement.docstring? = some literal := by
  obtain ⟨s, hs, hliteral⟩ := Option.bind_eq_some_iff.1 h
  rw [hs, Option.bind_some]
  split at hliteral
  · exact hliteral
  · cases hliteral

theorem exists_below_of_constant? {compound : Bool} {line : StatementLine compound}
    {next : Option Statement} {declaration : Declaration}
    (h : line.constant? context next = some declaration) :
    ∃ literal, docstringBelow? line.newline.token next = some literal := by
  unfold StatementLine.constant? at h
  split at h
  · cases h
  · split at h
    · obtain ⟨literal, hbelow, -⟩ := Option.map_eq_some_iff.1 h
      exact ⟨literal, hbelow⟩
    · cases h

/-- Nothing but a docstring is read along. -/
theorem Statement.taken_eq (context : ScanContext) (s : Statement) (l : List Statement) :
    s.taken context l = [] ∨
      s.taken context l = l.take 1 ∧ (l.head?.bind Statement.docstring?).isSome = true := by
  unfold taken
  split
  · split
    next hsome =>
      obtain ⟨declaration, hconstant⟩ := Option.isSome_iff_exists.1 hsome
      obtain ⟨literal, hbelow⟩ := exists_below_of_constant? hconstant
      refine .inr ⟨rfl, ?_⟩
      rw [docstring?_of_below hbelow]
      rfl
    · exact .inl rfl
  · exact .inl rfl

/-- A statement at top level is read, perhaps with the docstring below it. -/
theorem statement_top (s : Statement) (l : List Statement)
    (h : c.after = s.tokens ++ Statement.listTokens l) :
    Scanner.statement context Scope.top c =
      ({ declarations := s.declarations context l.head?, counts := s.counts },
        c.past (s.tokens ++ Statement.listTokens (s.taken context l))) := by
  have hother (hs : ∀ line, s ≠ .simple line) (htaken : s.taken context l = [])
      (hscan : s.IsScanned context Scope.top) :
      Scanner.statement context Scope.top c =
        ({ declarations := s.declarations context l.head?, counts := s.counts },
          c.past (s.tokens ++ Statement.listTokens (s.taken context l))) := by
    rw [hscan c _ h, findings_top s l.head? hs, htaken, Statement.listTokens, List.append_nil]
  cases s with
  | compound line body => exact hother (by simp) rfl (isScanned_compound line body.isScanned)
  | function head suite => exact hother (by simp) rfl (isScanned_function head suite.isScanned)
  | classDef head suite => exact hother (by simp) rfl (isScanned_classDef head suite.isScanned)
  | simple line =>
      rw [Statement.tokens] at h ⊢
      rw [statement_line line h, simpleStatement]
      simp only [statementTokens_line line h, skipIf_newline_line line h, line.isCompound_eq,
        constant?_line line l h, Statement.declarations, Statement.counts, Statement.taken]
      cases line.constant? context l.head? with
      | none => simp [Statement.listTokens, Scope.top]
      | some declaration => simp [Scope.top]

theorem statements_cons (s : Statement) (l : List Statement)
    (h : c.after = Statement.listTokens (s :: l)) :
    statements context c =
      { declarations := s.declarations context l.head?, counts := s.counts } ++
        statements context (c.past (s.tokens ++ Statement.listTokens (s.taken context l))) := by
  rw [Statement.listTokens] at h
  have hne : c.after ≠ [] := by
    rw [h]
    exact List.append_ne_nil_of_left_ne_nil s.tokens_ne_nil _
  have htokens : s.tokens ++ Statement.listTokens (s.taken context l) ≠ [] :=
    List.append_ne_nil_of_left_ne_nil s.tokens_ne_nil _
  have hstep : Scanner.statement context ⟨.atModule, true⟩ c = _ := statement_top s l h
  rw [statements, if_neg (by simpa [atEnd] using hne)]
  simp only [hstep]
  rw [if_pos (length_past_lt hne htokens)]

/-- A docstring is no assignment, so that no constant begins with it. -/
theorem constant?_docstring (context : ScanContext) (line : StatementLine false) {literal : DocLiteral}
    (h : line.docstring? = some literal) (next : Option Statement) :
    line.constant? context next = none := by
  unfold StatementLine.docstring? at h
  split at h
  next t hcontents => simp [StatementLine.constant?, hcontents, isAssignment]
  · cases h

/-- A docstring may be passed: it contributes nothing. -/
theorem statements_docstring (l : List Statement) (h : c.after = Statement.listTokens l)
    (hdocstring : (l.head?.bind Statement.docstring?).isSome = true) :
    statements context (c.past (Statement.listTokens (l.take 1))) = statements context c := by
  cases l with
  | nil => rfl
  | cons s l =>
      obtain ⟨literal, hliteral⟩ := Option.isSome_iff_exists.1 hdocstring
      cases s with
      | simple line =>
          have hconstant := constant?_docstring context line hliteral l.head?
          have hcounts : (Statement.simple line).counts = {} := by
            rw [← Statement.findings_counts context Scope.top,
              Statement.findings_docstring context (s := .simple line) hliteral]
          have htaken : (Statement.simple line).taken context l = [] := by
            simp [Statement.taken, hconstant]
          have hdeclarations : (Statement.simple line).declarations context l.head? = [] := by
            simp [Statement.declarations, hconstant]
          rw [statements_cons _ l h, htaken, hdeclarations, hcounts]
          exact (Findings.empty_append _).symm
      | compound line body => cases hliteral
      | function head suite => cases hliteral
      | classDef head suite => cases hliteral

/-- The statements of a file are read one after the other. -/
theorem statements_listTokens (context : ScanContext) (l : List Statement)
    (h : c.after = Statement.listTokens l) :
    statements context c =
      { declarations := Statement.listDeclarations context l, counts := Statement.listCounts l } := by
  induction l generalizing c with
  | nil =>
      rw [Statement.listTokens] at h
      rw [statements, if_pos (by simp [atEnd, h])]
      rfl
  | cons s l ih =>
      have hnext : (c.past s.tokens).after = Statement.listTokens l := by
        rw [Statement.listTokens] at h
        exact after_past h
      have hrest : statements context
          (c.past (s.tokens ++ Statement.listTokens (s.taken context l))) =
          statements context (c.past s.tokens) := by
        rw [past_append]
        rcases s.taken_eq context l with htaken | ⟨htaken, hdocstring⟩
        · rw [htaken]
          rfl
        · rw [htaken, statements_docstring l hnext hdocstring]
      rw [statements_cons s l h, hrest, ih hnext]
      rfl

/-! ### Files -/

namespace ModuleTree

variable (tree : ModuleTree)

theorem after_ofTokens : (TokenCursor.ofTokens tree.tokens).after =
    Statement.listTokens tree.statements := by
  simp [TokenCursor.ofTokens, tokens]

/-- An empty file begins at its end mark. -/
theorem position_ofTokens : (TokenCursor.ofTokens tree.tokens).position = startOf tree.tokens := by
  have hafter := tree.after_ofTokens
  cases hstatements : tree.statements with
  | nil =>
      rw [hstatements, Statement.listTokens] at hafter
      rw [position, hafter]
      simp [TokenCursor.ofTokens, tokens, hstatements, Statement.listTokens, startOf]
  | cons s l =>
      rw [hstatements, Statement.listTokens] at hafter
      rw [position_eq_startOf hafter s.tokens_ne_nil, tokens, hstatements, Statement.listTokens,
        List.append_assoc, startOf_append s.tokens_ne_nil]

theorem docstring?_ofTokens : Scanner.docstring? (TokenCursor.ofTokens tree.tokens) =
    tree.docstring?.map fun literal => (literal,
      (TokenCursor.ofTokens tree.tokens).past (Statement.listTokens (tree.statements.take 1))) := by
  have hafter := tree.after_ofTokens
  rw [docstring?]
  cases hstatements : tree.statements with
  | nil =>
      rw [hstatements, Statement.listTokens] at hafter
      simp [Scanner.docstring?, hafter]
  | cons s l =>
      rw [hstatements, Statement.listTokens] at hafter
      rw [docstring?_statement s hafter]
      simp [Statement.listTokens]

/-- Scanning the tokens of a syntax tree gives the declarations of the tree, and no faults. -/
theorem ofTokens_tokens (context : ScanContext) (tree : ModuleTree) :
    ScannedSource.ofTokens context tree.tokens = ⟨tree.declarations context, []⟩ := by
  have hafter := tree.after_ofTokens
  have hscan := statements_listTokens context tree.statements hafter
  rw [ScannedSource.ofTokens]
  simp only [tree.position_ofTokens, tree.docstring?_ofTokens]
  cases hdocstring : tree.docstring? with
  | none =>
      simp only [Option.map_none, hscan]
      rw [declarations, moduleDecl, headLine, hdocstring]
      rfl
  | some literal =>
      have hsome : (tree.statements.head?.bind Statement.docstring?).isSome = true := by
        rw [← docstring?, hdocstring]
        rfl
      simp only [Option.map_some, statements_docstring tree.statements hafter hsome, hscan]
      rw [declarations, moduleDecl, headLine, hdocstring]
      rfl

end ModuleTree

/-! ### Samples -/

/-- A token on the first line, the given number of bytes behind its beginning. -/
def firstLineToken (kind : TokenKind) (text : Bytes) (offset : Nat) : Token :=
  ⟨kind, text, ⟨1, UInt32.ofNat (offset + 1)⟩, offset⟩

def sampleSign (kind : TokenKind) (text : Bytes) (h : text ≠ []) : Sign kind :=
  ⟨⟨firstLineToken kind text 0, rfl⟩, h⟩

/-- The line `return a`. -/
def sampleLine : StatementLine false where
  contents := [firstLineToken (.keyword .kReturn) (ascii "return") 0,
    firstLineToken .identifier (ascii "a") 0]
  newline := ⟨firstLineToken .newline [newline] 0, rfl⟩
  contents_ne_nil := by simp
  plain := by decide
  no_semicolon := by decide
  no_def := by decide
  no_class := by decide
  undecorated := by decide
  isCompound_eq := by decide

/-- The parameters `self, *, a: int = 1,`. -/
def sampleParameters : ParameterList :=
  let comma := sampleSign .comma (ascii ",") (by decide)
  .cons (.named ⟨.none, sampleSign _ (ascii "self") (by decide), none, none⟩) comma
    (.cons (.star (sampleSign _ (ascii "*") (by decide))) comma
      (.cons (.named {
          stars := .none
          name := sampleSign _ (ascii "a") (by decide)
          typeClause := some
            { sign := sampleSign _ (ascii ":") (by decide)
              run := ⟨[firstLineToken .identifier (ascii "int") 0], by decide, by decide⟩
              run_ne_nil := by simp }
          defaultClause := some
            { sign := sampleSign _ (ascii "=") (by decide)
              run := ⟨[firstLineToken .number (ascii "1") 0], by decide, by decide⟩
              run_ne_nil := by simp } }) comma .nil))

/-- A class with a decorated method. -/
def sampleTree : ModuleTree where
  statements :=
    [.classDef
      { decorators := []
        word := sampleSign _ (ascii "class") (by decide)
        name := sampleSign _ (ascii "C") (by decide)
        bases := none
        colon := sampleSign _ (ascii ":") (by decide) }
      (.block ⟨firstLineToken .newline [newline] 0, rfl⟩
        (.mk ⟨firstLineToken .indent [] 0, rfl⟩
          (.function
            { decorators := [
                { sign := sampleSign _ (ascii "@") (by decide)
                  contents := [firstLineToken .identifier (ascii "cached") 0]
                  newline := ⟨firstLineToken .newline [newline] 0, rfl⟩
                  plain := by decide }]
              async := none
              word := sampleSign _ (ascii "def") (by decide)
              name := sampleSign _ (ascii "f") (by decide)
              opening := sampleSign _ (ascii "(") (by decide)
              parameters := sampleParameters
              closing := sampleSign _ (ascii ")") (by decide)
              result := some ⟨sampleSign _ (ascii "->") (by decide),
                [firstLineToken .identifier (ascii "int") 0], by decide, by decide⟩
              colon := sampleSign _ (ascii ":") (by decide) }
            (.line sampleLine))
          [] ⟨firstLineToken .dedent [] 0, rfl⟩))]
  eof := ⟨firstLineToken .eof [] 0, rfl⟩

example : sampleTree.tokens.map (fun t => (t.kind, t.text)) =
    (LexedSource.ofSource (ascii
      "class C:\n    @cached\n    def f(self, *, a: int = 1,) -> int: return a\n")).tokens.map
        (fun t => (t.kind, t.text)) := by cbv

-- An assignment at top level is declared only if a docstring follows.
example : (ScannedSource.ofSource (ascii "x = 1\n")).declarations.map Declaration.form =
    [.moduleDecl] := by cbv

end DocLint
