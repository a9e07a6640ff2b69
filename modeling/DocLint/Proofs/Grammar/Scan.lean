import DocLint.Proofs.Grammar.Findings
import DocLint.Proofs.Grammar.Headers

/-!
# Scanning a syntax tree

The scanner reads a statement that has been written as the grammar says: it passes over the tokens
of the statement and finds what the statement contributes.  Suites and blocks are read in the same
way.  A docstring at the head of a suite is read before the block, and the block without it.

* `Statement.IsScanned`, `Suite.IsScanned`, `Block.IsScanned`: a tree is read as it is written.
* `isScanned_function`, `isScanned_classDef`, `isScanned_compound`: a tree is, if its parts are.
* `Statement.isScanned`, `Suite.isScanned`: every tree is.
-/

namespace DocLint

open Scanner TokenCursor

variable {context : ScanContext} {scope : Scope} {c : TokenCursor} {rest : List Token}

/-! ### Places -/

theorem position_eq_startOf {tokens : List Token} (h : c.after = tokens ++ rest)
    (hne : tokens ≠ []) : c.position = startOf tokens := by
  obtain ⟨t, tail, rfl⟩ := List.exists_cons_of_ne_nil hne
  exact position_eq h

theorem startOf_append {tokens : List Token} (hne : tokens ≠ []) (more : List Token) :
    startOf (tokens ++ more) = startOf tokens := by
  obtain ⟨t, tail, rfl⟩ := List.exists_cons_of_ne_nil hne
  rfl

theorem Sign.isSolid {kind : TokenKind} (sign : Sign kind) (hkind : kind ≠ .newline) :
    sign.token.isSolid = true := by
  simp [Token.isSolid, sign.text_ne_nil, sign.kind_eq, hkind]

/-- The end of a definition is in its suite, or else in its header. -/
theorem lastStop_past_append {tokens more : List Token} (h : c.after = tokens ++ more ++ rest)
    (hsolid : ∃ t ∈ tokens, t.isSolid = true) :
    (c.past (tokens ++ more)).lastStop = fileStop (tokens ++ more) := by
  obtain ⟨t, hmem, ht⟩ := hsolid
  exact lastStop_past h ⟨t, List.mem_append_left more hmem, ht⟩

/-- What begins with something written is passed on to the scanner of what it is. -/
theorem statement_written {t : Token} (h : c.after = t :: rest) (hwritten : t.kind.isWritten = true)
    {names : List Bytes} {behind here : TokenCursor}
    (hdecorators : Scanner.decorators c = (names, behind)) (hasync : skipAsync behind = here) :
    Scanner.statement context scope c =
      if here.isAt (.keyword .kDef) then functionDef context scope names c.position here
      else if here.isAt (.keyword .kClass) then classDef context scope c.position here
      else
        (.ofFaults (if names.isEmpty then []
          else [here.expected "function or class definition after decorator"]) ++
          (simpleStatement context scope here).1, (simpleStatement context scope here).2) := by
  have hmarks : t.kind ≠ .newline ∧ t.kind ≠ .dedent ∧ t.kind ≠ .indent := by
    refine ⟨?_, ?_, ?_⟩
    all_goals
      intro hkind
      rw [hkind] at hwritten
      cases hwritten
  rw [Scanner.statement, if_neg (by simp [isAt_eq h, hmarks]), if_neg (by simp [isAt_eq h, hmarks])]
  simp only [hdecorators, hasync]

/-! ### Lines -/

section Lines

variable {compound : Bool} (line : StatementLine compound) (h : c.after = line.tokens ++ rest)
include h

theorem statementTokens_line : statementTokens c = line.contents := by
  have hnewline (t : Token) (ht : t ∈ line.contents) : (t.kind != .newline) = true := by
    simpa using (Token.kind_ne_of_isPlain (line.plain t ht)).1
  rw [statementTokens, h, StatementLine.tokens, List.append_assoc,
    List.takeWhile_append_of_pos hnewline]
  simp [line.newline.kind_eq]

theorem statementEnd_line : statementEnd c = c.past line.contents := by
  rw [statementEnd, statementTokens_line line h]
  rfl

theorem after_statementEnd_line : (statementEnd c).after = line.newline.token :: rest := by
  rw [statementEnd_line line h]
  apply after_past
  rw [h, StatementLine.tokens, List.append_assoc]
  rfl

/-- The newline belongs to the line. -/
theorem skipIf_newline_line : (statementEnd c).skipIf .newline = c.past line.tokens := by
  have hskip := skipIf_eq (after_statementEnd_line line h)
  rw [line.newline.kind_eq, statementEnd_line line h] at hskip
  rw [statementEnd_line line h, hskip, StatementLine.tokens, past_append]

/-- The word `async` is left to a line that defines nothing. -/
theorem skipAsync_line : skipAsync c = c := by
  obtain ⟨t, tail, hcontents, -⟩ := line.exists_first
  have hafter : c.after = t :: (tail ++ line.newline.token :: rest) := by
    simp [h, StatementLine.tokens, hcontents]
  have hnext : c.kindAt 1 ≠ .keyword .kDef := by
    simp only [kindAt, hafter]
    cases tail with
    | nil => simp [line.newline.kind_eq]
    | cons u tail => exact line.no_def u (by simp [hcontents])
  rw [skipAsync, if_neg]
  simp [hnext]

/-- A line that defines nothing is scanned as one. -/
theorem statement_line :
    Scanner.statement context scope c = simpleStatement context scope c := by
  obtain ⟨t, tail, hcontents, hplain, hsign, hdef, hclass⟩ := line.exists_first
  have hafter : c.after = t :: (tail ++ line.newline.token :: rest) := by
    simp [h, StatementLine.tokens, hcontents]
  have hdecorators : Scanner.decorators c = ([], c) :=
    decorators_tokens [] (List.nil_append c.after).symm (by simpa [hafter] using hsign)
  rw [statement_written hafter (Token.isWritten_of_isPlain hplain) hdecorators
      (skipAsync_line line h), if_neg (by simp [isAt_eq hafter, hdef]),
    if_neg (by simp [isAt_eq hafter, hclass])]
  simp

end Lines

/-- Below the top level, where no constant is declared. -/
def Scope.IsNested (scope : Scope) : Prop := (scope.kind == .atModule && scope.collected) = false

theorem simpleStatement_simple (line : StatementLine false) (hscope : scope.IsNested)
    (h : c.after = line.tokens ++ rest) :
    simpleStatement context scope c =
      ((Statement.simple line).findings context scope, c.past line.tokens) := by
  rw [simpleStatement]
  simp only [statementTokens_line line h, skipIf_newline_line line h, line.isCompound_eq]
  rw [if_neg (by simp), hscope]
  rfl

/-! ### What is to be shown -/

namespace Statement

/-- The scanner reads the statement as it is written. -/
def IsScanned (context : ScanContext) (scope : Scope) (s : Statement) : Prop :=
  ∀ (c : TokenCursor) (rest : List Token), c.after = s.tokens ++ rest →
    Scanner.statement context scope c = (s.findings context scope, c.past s.tokens)

/-- The scanner reads the statements up to the end of their block. -/
def ListIsScanned (context : ScanContext) (l : List Statement) : Prop :=
  ∀ (scope : Scope) (c : TokenCursor) (dedent : Mark .dedent) (rest : List Token),
    scope.IsNested → c.after = listTokens l ++ dedent.token :: rest →
      Scanner.block context scope c =
        (listFindings context scope l, c.past (listTokens l ++ [dedent.token]))

end Statement

/-- The scanner reads the block, also without the first statement if that is a docstring. -/
structure Block.IsScanned (context : ScanContext) (body : Block) : Prop where
  all : Statement.ListIsScanned context body.statements
  behindFirst : Statement.ListIsScanned context body.statements.tail

/-- The scanner reads the suite as it is written. -/
def Suite.IsScanned (context : ScanContext) (suite : Suite) : Prop :=
  ∀ (scope : Scope) (c : TokenCursor) (rest : List Token),
    scope.IsNested → c.after = suite.tokens ++ rest →
      Scanner.suite context scope c =
        (suite.docstring?, suite.findings context scope, c.past suite.tokens)

/-! ### Blocks -/

theorem listIsScanned_nil : Statement.ListIsScanned context [] := by
  intro scope c dedent rest _ h
  have hat : c.isAt .dedent = true := by
    rw [Statement.listTokens] at h
    simp [isAt_eq h, dedent.kind_eq]
  rw [Scanner.block, if_pos (by simp [hat]), skipIf, if_pos hat]
  rfl

theorem length_past_lt (h : c.after ≠ []) {tokens : List Token} (hne : tokens ≠ []) :
    (c.past tokens).length < c.length := by
  have hahead : 0 < c.length := List.length_pos_of_ne_nil h
  have htokens := List.length_pos_of_ne_nil hne
  rw [TokenCursor.past, length_skip]
  omega

theorem listIsScanned_cons {s : Statement} {l : List Statement}
    (hs : ∀ scope : Scope, scope.IsNested → s.IsScanned context scope)
    (hl : Statement.ListIsScanned context l) : Statement.ListIsScanned context (s :: l) := by
  intro scope c dedent rest hscope h
  rw [Statement.listTokens, List.append_assoc] at h
  obtain ⟨t, tail, htokens, hwritten⟩ := s.exists_first
  have hafter : c.after = t :: (tail ++ (Statement.listTokens l ++ dedent.token :: rest)) := by
    rw [h, htokens]
    rfl
  have hdedent : t.kind ≠ .dedent := (Arranged.ne_indent_dedent hwritten).2
  have hstatement := hs scope hscope c _ h
  have hrest := hl scope (c.past s.tokens) dedent rest hscope (after_past h)
  rw [Scanner.block, if_neg (by simp [isAt_eq hafter, hdedent, atEnd, hafter])]
  simp only [hstatement]
  rw [if_pos (length_past_lt (by simp [hafter]) s.tokens_ne_nil), hrest]
  rw [Statement.listTokens, List.append_assoc, past_append c s.tokens]
  rfl

/-- The tokens of a block: those of its statements between two marks. -/
theorem Block.exists_marks (body : Block) : ∃ (indent : Mark .indent) (dedent : Mark .dedent),
    body.tokens = indent.token :: (Statement.listTokens body.statements ++ [dedent.token]) := by
  obtain ⟨indent, first, more, dedent⟩ := body
  refine ⟨indent, dedent, ?_⟩
  rw [tokens, statements, Statement.listTokens, List.append_assoc]

/-! ### Suites -/

theorem suite_isScanned_line (only : StatementLine false) :
    (Suite.line only).IsScanned context := by
  intro scope c rest hscope h
  rw [Suite.tokens] at h ⊢
  obtain ⟨t, tail, hcontents, hplain, -⟩ := only.exists_first
  have hafter : c.after = t :: (tail ++ only.newline.token :: rest) := by
    simp [h, StatementLine.tokens, hcontents]
  have hnewline := (Token.kind_ne_of_isPlain hplain).1
  have hfindings : (Suite.line only).findings context scope =
      (Statement.simple only).findings context scope := Findings.append_empty _
  have hdocstring : (Suite.line only).docstring? = only.docstring? := rfl
  rw [Scanner.suite, if_neg (by simp [isAt_eq hafter, hnewline])]
  have hscan := docstring?_line only h
  split
  next literal next hsome =>
    rw [hscan, Option.map_eq_some_iff] at hsome
    obtain ⟨found, hfound, hpair⟩ := hsome
    obtain ⟨rfl, rfl⟩ := Prod.mk.inj hpair
    -- The newline behind the docstring ends the suite.
    have hbefore : (c.past only.tokens).before.head? = some only.newline.token := by
      rw [before_past h]
      simp [StatementLine.tokens]
    rw [if_pos (by simp [hbefore, only.newline.kind_eq]), hdocstring, hfound, hfindings,
      Statement.findings_docstring context (s := .simple only) hfound]
  next hnone =>
    have hnil : only.docstring? = none := by
      rw [hscan, Option.map_eq_none_iff] at hnone
      exact hnone
    rw [if_neg (by simp [atEnd, hafter]), simpleStatement_simple only hscope h, hdocstring, hnil,
      hfindings]

theorem suite_isScanned_block (newline : Mark .newline) {body : Block}
    (hbody : body.IsScanned context) : (Suite.block newline body).IsScanned context := by
  intro scope c rest hscope h
  obtain ⟨indent, dedent, hmarks⟩ := body.exists_marks
  rw [Suite.tokens, hmarks] at h ⊢
  have hafter : c.after = newline.token :: indent.token ::
      (Statement.listTokens body.statements ++ dedent.token :: rest) := by
    simpa using h
  have hindent := after_advance hafter
  have hstart := after_advance hindent
  have hpast (tokens : List Token) :
      c.past (newline.token :: indent.token :: tokens) = c.advance.advance.past tokens := by
    rw [past_cons, past_cons]
  have hfindings : (Suite.block newline body).findings context scope =
      Statement.listFindings context scope body.statements := rfl
  have hdocstring : (Suite.block newline body).docstring? =
      body.statements.head?.bind Statement.docstring? := rfl
  have hall := hbody.all scope c.advance.advance dedent rest hscope hstart
  have htail := hbody.behindFirst scope
  rw [Scanner.suite, if_pos (by simp [isAt_eq hafter, newline.kind_eq])]
  simp only
  rw [if_pos (by simp [isAt_eq hindent, indent.kind_eq]), hpast, hfindings, hdocstring]
  obtain ⟨_, first, more, _⟩ := body
  simp only [Block.statements, List.head?_cons, Option.bind_some, List.tail_cons,
    Statement.listTokens, List.append_assoc] at hstart hall htail ⊢
  have hscan := docstring?_statement first hstart
  split
  next literal next hsome =>
    rw [hscan, Option.map_eq_some_iff] at hsome
    obtain ⟨found, hfound, hpair⟩ := hsome
    obtain ⟨rfl, rfl⟩ := Prod.mk.inj hpair
    rw [htail _ dedent rest hscope (after_past hstart), hfound, Statement.listFindings,
      Statement.findings_docstring context hfound, Findings.empty_append, past_append _ first.tokens]
  next hnone =>
    have hnil : first.docstring? = none := by
      rw [hscan, Option.map_eq_none_iff] at hnone
      exact hnone
    rw [hall, hnil]

/-! ### Statements -/

theorem isNested_inFunction : Scope.IsNested ⟨.inFunction, false⟩ := rfl

theorem isNested_inClass (collected : Bool) : Scope.IsNested ⟨.inClass, collected⟩ := rfl

theorem isNested_blockScope (scope : Scope) : (blockScope scope).IsNested :=
  Bool.and_false _

theorem isScanned_simple (line : StatementLine false) (hscope : scope.IsNested) :
    (Statement.simple line).IsScanned context scope := by
  intro c rest h
  rw [Statement.tokens] at h ⊢
  rw [statement_line line h, simpleStatement_simple line hscope h]

theorem isScanned_compound (line : StatementLine true) {body : Block}
    (hbody : body.IsScanned context) : (Statement.compound line body).IsScanned context scope := by
  intro c rest h
  obtain ⟨indent, dedent, hmarks⟩ := body.exists_marks
  rw [Statement.tokens, hmarks] at h ⊢
  rw [List.append_assoc] at h
  have hindent : (c.past line.tokens).after = indent.token ::
      (Statement.listTokens body.statements ++ dedent.token :: rest) := by
    simpa using after_past h
  have hblock := hbody.all (blockScope scope) (c.past line.tokens).advance dedent rest
    (isNested_blockScope scope) (after_advance hindent)
  have hcounts : Statement.listFindings context (blockScope scope) body.statements =
      { counts := body.counts } := by
    rw [Statement.listFindings_uncollected context rfl]
    · obtain ⟨_, first, more, _⟩ := body
      rw [Block.statements, Statement.listCounts, Block.counts]
    · rw [blockScope]
      split <;> simp
  rw [statement_line line h, simpleStatement]
  simp only [statementTokens_line line h, skipIf_newline_line line h, line.isCompound_eq]
  rw [if_pos (by simp [isAt_eq hindent, indent.kind_eq]), hblock, hcounts, past_append c line.tokens,
    past_cons]
  rfl

/-- The scanner gets to the header of a function. -/
theorem statement_function (head : FunctionHead) (h : c.after = head.tokens ++ rest) :
    Scanner.statement context scope c =
      functionDef context scope (head.decorators.filterMap Decorator.name?) (startOf head.tokens)
        (c.past (head.decorators.flatMap Decorator.tokens ++ head.asyncTokens)) := by
  obtain ⟨t, tail, htokens, hwritten, -⟩ := head.exists_first
  have hafter : c.after = t :: (tail ++ rest) := by
    rw [h, htokens]
    rfl
  have hdecorated : c.after = head.decorators.flatMap Decorator.tokens ++
      (head.asyncTokens ++ (head.signature ++ rest)) := by
    simp [h, FunctionHead.tokens]
  have hsign : ∀ t ∈ (head.asyncTokens ++ (head.signature ++ rest)).head?, t.kind ≠ .atSign := by
    rw [FunctionHead.asyncTokens]
    cases head.async with
    | none => simp [FunctionHead.signature, head.word.kind_eq]
    | some sign => simp [sign.kind_eq]
  have hdecorators := decorators_tokens head.decorators hdecorated hsign
  have hasync := skipAsync_function head (after_past hdecorated)
  have hword : ((c.past (head.decorators.flatMap Decorator.tokens)).past head.asyncTokens).isAt
      (.keyword .kDef) = true := by
    have hsignature := after_past (after_past hdecorated)
    simp [isAt_eq hsignature, head.word.kind_eq]
  rw [statement_written hafter hwritten hdecorators hasync, if_pos hword,
    position_eq_startOf h head.tokens_ne_nil, past_append]

theorem exists_isSolid_function (head : FunctionHead) :
    ∃ t ∈ head.tokens, t.isSolid = true := by
  refine ⟨head.name.token, ?_, head.name.isSolid (by decide)⟩
  simp [FunctionHead.tokens, FunctionHead.signature]

/-- Only a method is called without its receiver. -/
theorem ownParameters_of_ne {kind : ScopeKind} (hkind : kind ≠ .inClass) (decorators : List Bytes)
    (parameters : List Parameter) : ownParameters kind decorators parameters = parameters := by
  cases parameters with
  | nil => rfl
  | cons first more => simp [ownParameters, hkind]

theorem functionFindings_eq (head : FunctionHead) (suite : Suite) :
    functionFindings context scope (startOf head.tokens)
        ⟨head.name.declaredName, head.parameters.parameters context.source,
          head.colon.token.position.line⟩
        (ownParameters scope.kind (head.decorators.filterMap Decorator.name?)
          (head.parameters.parameters context.source))
        suite.docstring? suite.counts (fileStop (head.tokens ++ suite.tokens)) =
      (Statement.function head suite).findings context scope := by
  have hstart := startOf_append head.tokens_ne_nil suite.tokens
  by_cases hkind : scope.kind = .inClass
  · simp [functionFindings, Statement.findings, hkind, FunctionHead.methodDecl,
      FunctionHead.declaration, FunctionHead.methodParameters, spanOf, hstart,
      Statement.initializer?, Sign.declaredName]
  · simp [functionFindings, Statement.findings, hkind, FunctionHead.functionDecl,
      FunctionHead.declaration, spanOf, hstart, ownParameters_of_ne hkind]

/-- A function is read with its decorators and its suite. -/
theorem isScanned_function (head : FunctionHead) {suite : Suite}
    (hsuite : suite.IsScanned context) :
    (Statement.function head suite).IsScanned context scope := by
  intro c rest h
  rw [Statement.tokens] at h ⊢
  have hhead : c.after = head.tokens ++ (suite.tokens ++ rest) := by
    rw [h, List.append_assoc]
  set here := c.past (head.decorators.flatMap Decorator.tokens ++ head.asyncTokens) with hhere
  have hsignature : here.after = head.signature ++ (suite.tokens ++ rest) := by
    apply after_past
    simp [hhead, FunctionHead.tokens]
  have hpast : here.past head.signature = c.past head.tokens := by
    rw [hhere, ← past_append, FunctionHead.tokens, List.append_assoc]
  have hheader := functionHeader_signature context.source head hsignature
  rw [hpast] at hheader
  have hbody := hsuite ⟨.inFunction, false⟩ _ rest isNested_inFunction (after_past hhead)
  rw [← past_append] at hbody
  have hstop := lastStop_past_append h (exists_isSolid_function head)
  have hcounts : (suite.findings context ⟨.inFunction, false⟩).counts = suite.counts :=
    Statement.listFindings_counts context _ _
  have hfaults : (suite.findings context ⟨.inFunction, false⟩).faults = [] :=
    Statement.listFindings_faults context _ _
  rw [statement_function head hhead, ← hhere, functionDef]
  simp only
  split
  next hnone =>
    rw [hheader] at hnone
    cases hnone
  next header hsome =>
    rw [hheader] at hsome
    obtain rfl := Option.some.inj hsome
    simp only [hheader, hbody, hstop, hcounts, hfaults, functionFindings_eq]
    rw [List.append_nil, Findings.ofFaults_nil, Findings.empty_append]

/-- The scanner gets to the header of a class. -/
theorem statement_classDef (head : ClassHead) (h : c.after = head.tokens ++ rest) :
    Scanner.statement context scope c =
      classDef context scope (startOf head.tokens)
        (c.past (head.decorators.flatMap Decorator.tokens)) := by
  obtain ⟨t, tail, htokens, hwritten, -⟩ := head.exists_first
  have hafter : c.after = t :: (tail ++ rest) := by
    rw [h, htokens]
    rfl
  have hdecorated : c.after = head.decorators.flatMap Decorator.tokens ++
      (head.signature ++ rest) := by
    rw [h, ClassHead.tokens, List.append_assoc]
  have hsign : ∀ t ∈ (head.signature ++ rest).head?, t.kind ≠ .atSign := by
    simp [ClassHead.signature, head.word.kind_eq]
  have hdecorators := decorators_tokens head.decorators hdecorated hsign
  have hword : (c.past (head.decorators.flatMap Decorator.tokens)).after = head.word.token :: _ :=
    after_past hdecorated
  have hasync := skipAsync_of_ne hword (by simp [head.word.kind_eq])
  rw [statement_written hafter hwritten hdecorators hasync,
    if_neg (by simp [isAt_eq hword, head.word.kind_eq]),
    if_pos (by simp [isAt_eq hword, head.word.kind_eq]), position_eq_startOf h head.tokens_ne_nil]

theorem exists_isSolid_classDef (head : ClassHead) : ∃ t ∈ head.tokens, t.isSolid = true := by
  refine ⟨head.name.token, ?_, head.name.isSolid (by decide)⟩
  simp [ClassHead.tokens, ClassHead.signature]

theorem classFindings_eq (head : ClassHead) (suite : Suite) :
    classFindings context scope (startOf head.tokens)
        ⟨head.name.declaredName, head.colon.token.position.line⟩ suite.docstring?
        (suite.findings context ⟨.inClass, isCollectedClass scope⟩)
        (fileStop (head.tokens ++ suite.tokens)) =
      (Statement.classDef head suite).findings context scope := by
  have hstart := startOf_append head.tokens_ne_nil suite.tokens
  cases hcollected : isCollectedClass scope with
  | false => simp [classFindings, Statement.findings, hcollected]
  | true =>
      have hmethods := Statement.listFindings_methods context suite.statements
      have hinitializer := Statement.listFindings_initializer context true suite.statements
      simp [classFindings, Statement.findings, hcollected, Suite.findings, hmethods, hinitializer,
        Suite.methods, ClassHead.classDecl, Suite.initializer?, spanOf, hstart]

/-- A class is read with its decorators and its suite. -/
theorem isScanned_classDef (head : ClassHead) {suite : Suite} (hsuite : suite.IsScanned context) :
    (Statement.classDef head suite).IsScanned context scope := by
  intro c rest h
  rw [Statement.tokens] at h ⊢
  have hhead : c.after = head.tokens ++ (suite.tokens ++ rest) := by
    rw [h, List.append_assoc]
  set here := c.past (head.decorators.flatMap Decorator.tokens) with hhere
  have hsignature : here.after = head.signature ++ (suite.tokens ++ rest) := by
    apply after_past
    rw [hhead, ClassHead.tokens, List.append_assoc]
  have hpast : here.past head.signature = c.past head.tokens := by
    rw [hhere, ← past_append, ClassHead.tokens]
  have hheader := classHeader_signature head hsignature
  rw [hpast] at hheader
  have hbody := hsuite ⟨.inClass, isCollectedClass scope⟩ _ rest (isNested_inClass _)
    (after_past hhead)
  rw [← past_append] at hbody
  have hstop := lastStop_past_append h (exists_isSolid_classDef head)
  have hfaults : (suite.findings context ⟨.inClass, isCollectedClass scope⟩).faults = [] :=
    Statement.listFindings_faults context _ _
  rw [statement_classDef head hhead, ← hhere, classDef]
  simp only
  split
  next hnone =>
    rw [hheader] at hnone
    cases hnone
  next header hsome =>
    rw [hheader] at hsome
    obtain rfl := Option.some.inj hsome
    simp only [hheader, hbody, hstop, hfaults, classFindings_eq]
    rw [List.append_nil, Findings.ofFaults_nil, Findings.empty_append]

/-! ### Every tree is read -/

mutual

theorem Statement.isScanned :
    (s : Statement) → ∀ scope : Scope, scope.IsNested → s.IsScanned context scope
  | .simple line => fun _ hscope => isScanned_simple line hscope
  | .compound line body => fun _ _ => isScanned_compound line body.isScanned
  | .function head suite => fun _ _ => isScanned_function head suite.isScanned
  | .classDef head suite => fun _ _ => isScanned_classDef head suite.isScanned

theorem Suite.isScanned : (suite : Suite) → suite.IsScanned context
  | .line only => suite_isScanned_line only
  | .block newline body => suite_isScanned_block newline body.isScanned

theorem Block.isScanned : (body : Block) → body.IsScanned context
  | .mk _ first rest _ =>
    ⟨listIsScanned_cons first.isScanned (Statement.listIsScanned rest),
      Statement.listIsScanned rest⟩

theorem Statement.listIsScanned : (l : List Statement) → Statement.ListIsScanned context l
  | [] => listIsScanned_nil
  | s :: rest => listIsScanned_cons s.isScanned (Statement.listIsScanned rest)

end

end DocLint
