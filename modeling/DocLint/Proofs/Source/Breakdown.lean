import DocLint.Proofs.Grammar.Findings
import DocLint.Proofs.Source.Progress

/-!
# Where a scan breaks off

A fatal fault has one source: the header of a function in which the text of a parameter is severed.
Everything else that the scanner objects to is reported, and the scan goes on.

* `Parameter.hasSeveredText`, `TokenCursor.breaksHeader`: such a parameter, and such a header.
* `any_isFatal_functionHeader`: a header has a fatal fault if and only if it is one of these.
* `scan_breaksAhead`: where a statement breaks off, such a header is ahead.
* `Lexer.fault_of_mem_run`: what the lexer objects to is reported.
* `ScanOutcome.ofSource_eq_finished`: without such a header the scan of a source text is finished.
-/

namespace DocLint

open Scanner TokenCursor

/-! ### Parameters -/

namespace Parameter

/-- The tokens are read as a parameter with a severed annotation or default. -/
def hasSeveredText (item : List Token) : Bool :=
  match (kindOf item).2 with
  | [] => false
  | t :: rest =>
    let (typing, behind) := annotationRun rest
    t.kind == .identifier && (isSevered typing || isSevered (defaultRun behind))

theorem isFatal_ofItem_iff (source : Bytes) (item : List Token) :
    (∃ fault, ofItem source item = .error fault ∧ fault.isFatal = true) ↔
      hasSeveredText item = true := by
  unfold ofItem hasSeveredText
  dsimp only
  cases (kindOf item).2 with
  | nil => simp
  | cons t rest =>
      dsimp only
      by_cases hslash : t.kind = .slash ∧ rest = []
      · simp [hslash]
      rw [if_neg hslash]
      by_cases hname : t.kind = .identifier
      · rw [if_pos hname]
        split
        next hsevered => simp [hname, hsevered, Fault.isFatal]
        next hwhole => simp [hname, hwhole]
      · simp [hname, Fault.isFatal]

theorem any_isFatal_faultsOf (source : Bytes) (items : List (List Token)) :
    (faultsOf source items).any Fault.isFatal = items.any hasSeveredText := by
  rw [faultsOf, List.any_filterMap]
  congr 1
  funext item
  rw [Bool.eq_iff_iff, ← isFatal_ofItem_iff source]
  cases ofItem source item with
  | ok parameter => simp
  | error fault => simp

end Parameter

/-! ### Headers -/

/-- The header of a function is next, with a parameter that has a severed annotation or default. -/
def TokenCursor.breaksHeader (c : TokenCursor) : Bool :=
  let list := c.skip 3
  c.isAt (.keyword .kDef) && c.kindAt 1 == .identifier && c.kindAt 2 == .leftParen &&
    (splitItems (list.after.take (listLength 0 list.after))).any Parameter.hasSeveredText

namespace Scanner

variable {context : ScanContext} {scope : Scope} {c d : TokenCursor}

@[simp] theorem isFatal_expected (c : TokenCursor) (wanted : String) :
    (c.expected wanted).isFatal = false := rfl

@[simp] theorem isFatal_expectedKind (c : TokenCursor) (wanted : TokenKind) :
    (c.expectedKind wanted).isFatal = false := rfl

theorem any_isFatal_endHeader {α : Type} (faults : List Fault) (make : UInt32 → α)
    (c : TokenCursor) : (endHeader faults make c).faults.any Fault.isFatal =
      faults.any Fault.isFatal := by
  unfold endHeader
  split
  · rfl
  · simp [refuse]

theorem any_isFatal_parameterList (source : Bytes) (c : TokenCursor) :
    (parameterList source c).2.1.any Fault.isFatal =
      (splitItems (c.after.take (listLength 0 c.after))).any Parameter.hasSeveredText := by
  unfold parameterList
  dsimp only
  rw [List.any_append, Parameter.any_isFatal_faultsOf]
  split <;> simp

theorem kindAt_eq (c : TokenCursor) (n : Nat) : c.kindAt n = (c.skip n).kind := by
  simp [TokenCursor.kind, kindAt]

/-- The header of a function has a fatal fault if and only if the text of a parameter is severed. -/
theorem any_isFatal_functionHeader (source : Bytes) (hdef : c.isAt (.keyword .kDef) = true) :
    (functionHeader source c).faults.any Fault.isFatal = c.breaksHeader := by
  have hname : c.kindAt 1 = c.advance.kind := kindAt_eq c 1
  have hopening : c.kindAt 2 = c.advance.advance.kind := by
    rw [kindAt_eq, advance, advance, skip_skip]
  have hlist : c.skip 3 = c.advance.advance.advance := by
    rw [advance, advance, advance, skip_skip, skip_skip]
  unfold functionHeader breaksHeader
  dsimp only
  rw [hdef, hname, hopening, hlist, Bool.true_and]
  cases hafter : c.advance.after with
  | nil => simp [refuse, TokenCursor.kind, kindAt, hafter]
  | cons t rest =>
      have hkind : c.advance.kind = t.kind := by simp [TokenCursor.kind, kindAt, hafter]
      rw [hkind]
      by_cases hidentifier : t.kind = .identifier
      · by_cases hparen : c.advance.advance.isAt .leftParen = true
        · have hat : (c.advance.advance.kind == .leftParen) = true := hparen
          simp only [hidentifier, hparen, hat, if_true, any_isFatal_endHeader,
            any_isFatal_parameterList, beq_self_eq_true, Bool.true_and]
        · have hat : (c.advance.advance.kind == .leftParen) = false :=
            Bool.eq_false_of_not_eq_true hparen
          simp [hidentifier, hparen, hat, refuse]
      · simp [hidentifier, refuse]

theorem any_isFatal_classHeader (c : TokenCursor) :
    (classHeader c).faults.any Fault.isFatal = false := by
  unfold classHeader
  dsimp only
  split
  · simp [refuse]
  · split
    · exact any_isFatal_endHeader _ _ _
    · simp [refuse]

/-! ### Statements -/

/-- If there is a fatal fault among the findings, a header that breaks is ahead of the place. -/
def BreaksAhead (c : TokenCursor) (found : Findings) : Prop :=
  found.faults.any Fault.isFatal = true → ∃ d, c.LeadsTo d ∧ d.breaksHeader = true

namespace BreaksAhead

variable {found more : Findings}

theorem of_reported (h : found.faults.any Fault.isFatal = false) : BreaksAhead c found := by
  intro hfatal
  rw [h] at hfatal
  cases hfatal

theorem append (hfound : BreaksAhead c found) (hmore : BreaksAhead c more) :
    BreaksAhead c (found ++ more) := by
  intro hfatal
  rw [Findings.faults_append, List.any_append, Bool.or_eq_true] at hfatal
  exact hfatal.elim hfound hmore

/-- What is ahead of a place further on is ahead of this one. -/
theorem reads {run : List Token} (hreads : c.Reads run d) (h : BreaksAhead d found) :
    BreaksAhead c found := by
  intro hfatal
  obtain ⟨place, hplace, hbreaks⟩ := h hfatal
  exact ⟨place, .trans ⟨run, hreads⟩ hplace, hbreaks⟩

end BreaksAhead

/-- A definition reports what is wrong with its header and with its suite. -/
theorem BreaksAhead.definition {faults : List Fault} {suite found : Findings}
    (hheader : faults.any Fault.isFatal = true → ∃ d, c.LeadsTo d ∧ d.breaksHeader = true)
    (hsuite : BreaksAhead c suite) (hfound : found.faults = []) :
    BreaksAhead c (.ofFaults (faults ++ suite.faults) ++ found) := by
  intro hfatal
  rw [Findings.faults_append, hfound, List.append_nil, Findings.ofFaults, List.any_append,
    Bool.or_eq_true] at hfatal
  exact hfatal.elim hheader hsuite

/-- With a fatal fault, the header itself is the one that breaks. -/
theorem functionHeader_breaksAhead {source : Bytes} (hdef : c.isAt (.keyword .kDef) = true)
    (hfatal : (functionHeader source c).faults.any Fault.isFatal = true) :
    ∃ d, c.LeadsTo d ∧ d.breaksHeader = true :=
  ⟨c, leadsTo_skip c 0, any_isFatal_functionHeader source hdef ▸ hfatal⟩

section Definitions

variable {start : Position}

theorem classDef_of_some_breaksAhead {header : ClassHeader}
    (hclass : c.isAt (.keyword .kClass) = true) (hsome : (classHeader c).header = some header)
    (hsuite : BreaksAhead (classHeader c).rest
      (suite context ⟨.inClass, isCollectedClass scope⟩ (classHeader c).rest).2.1) :
    BreaksAhead c (classDef context scope start c).1 := by
  obtain ⟨word, rest, hafter, -⟩ := exists_of_isAt hclass TokenKind.noConfusion
  obtain ⟨run, hreads, -⟩ := classHeader_reads hafter
  rw [classDef_of_some hsome]
  refine .definition (fun hfatal => ?_) (hsuite.reads hreads) ?_
  · rw [any_isFatal_classHeader] at hfatal
    cases hfatal
  · unfold classFindings
    split <;> rfl

theorem functionDef_of_none_breaksAhead {decorators : List Bytes}
    (hdef : c.isAt (.keyword .kDef) = true) (hnone : (functionHeader context.source c).header = none) :
    BreaksAhead c (functionDef context scope decorators start c).1 := by
  rw [functionDef_of_none hnone]
  exact functionHeader_breaksAhead hdef

theorem functionDef_of_some_breaksAhead {decorators : List Bytes} {header : FunctionHeader}
    (hdef : c.isAt (.keyword .kDef) = true)
    (hsome : (functionHeader context.source c).header = some header)
    (hsuite : BreaksAhead (functionHeader context.source c).rest
      (suite context ⟨.inFunction, false⟩ (functionHeader context.source c).rest).2.1) :
    BreaksAhead c (functionDef context scope decorators start c).1 := by
  obtain ⟨word, rest, hafter, -⟩ := exists_of_isAt hdef TokenKind.noConfusion
  obtain ⟨run, hreads, -⟩ := functionHeader_reads hafter context.source
  rw [functionDef_of_some hsome]
  exact .definition (functionHeader_breaksAhead hdef) (hsuite.reads hreads) rfl

end Definitions

theorem simpleStatement_compound_breaksAhead (hcompound : (isCompound (statementTokens c) &&
      ((statementEnd c).skipIf .newline).isAt .indent) = true)
    (hblock : BreaksAhead ((statementEnd c).skipIf .newline).advance
      (block context (blockScope scope) ((statementEnd c).skipIf .newline).advance).1) :
    BreaksAhead c (simpleStatement context scope c).1 := by
  obtain ⟨run, hreads, -⟩ := statementLine_reads c
  rw [simpleStatement_compound hcompound]
  exact .append (.of_reported rfl) (hblock.reads (hreads.trans (.skip _ 1)))

/-- A line that defines nothing has no faults. -/
theorem simpleStatement_line_breaksAhead (hline : ¬ (isCompound (statementTokens c) &&
      ((statementEnd c).skipIf .newline).isAt .indent) = true) :
    BreaksAhead c (simpleStatement context scope c).1 := by
  rw [simpleStatement_line hline]
  split <;> exact .of_reported rfl

/-- A decorator may be missing its definition. -/
theorem statement_simple_breaksAhead (hmark : ¬ (c.isAt .newline || c.isAt .dedent) = true)
    (hindent : ¬ c.isAt .indent = true)
    (hdef : ¬ (skipAsync (decorators c).2).isAt (.keyword .kDef) = true)
    (hclass : ¬ (skipAsync (decorators c).2).isAt (.keyword .kClass) = true)
    (hsimple : BreaksAhead (skipAsync (decorators c).2)
      (simpleStatement context scope (skipAsync (decorators c).2)).1) :
    BreaksAhead c (statement context scope c).1 := by
  obtain ⟨front, hfront⟩ := definition_reads c
  rw [statement_simple hmark hindent hdef hclass]
  refine .append (.of_reported ?_) (hsimple.reads hfront)
  unfold Findings.ofFaults
  split
  · rfl
  · simp

/-- Where a statement, or a part of one, breaks off, the header that breaks is ahead. -/
theorem scan_breaksAhead (context : ScanContext) :
    (∀ scope c, BreaksAhead c (statement context scope c).1) ∧
      (∀ scope c, BreaksAhead c (simpleStatement context scope c).1) ∧
      (∀ scope c, BreaksAhead c (block context scope c).1) ∧
      (∀ scope start c, c.isAt (.keyword .kClass) = true →
        BreaksAhead c (classDef context scope start c).1) ∧
      (∀ scope c, BreaksAhead c (suite context scope c).2.1) ∧
      ∀ scope decorators start c, c.isAt (.keyword .kDef) = true →
        BreaksAhead c (functionDef context scope decorators start c).1 := by
  apply statement.mutual_induct context
    (fun scope c => BreaksAhead c (statement context scope c).1)
    (fun scope c => BreaksAhead c (simpleStatement context scope c).1)
    (fun scope c => BreaksAhead c (block context scope c).1)
    (fun scope start c => c.isAt (.keyword .kClass) = true →
      BreaksAhead c (classDef context scope start c).1)
    (fun scope c => BreaksAhead c (suite context scope c).2.1)
    (fun scope decorators start c => c.isAt (.keyword .kDef) = true →
      BreaksAhead c (functionDef context scope decorators start c).1)
  -- A statement: a mark of the layout, a block, a definition, or another statement.
  case case1 =>
    intro scope c hmark
    rw [statement_mark hmark]
    exact .of_reported rfl
  case case2 =>
    intro scope c hmark hindent hblock
    rw [statement_indented hmark hindent]
    exact hblock.reads (.skip c 1)
  case case3 =>
    intro scope c hmark hindent decorated here hdef hfunction
    obtain ⟨front, hfront⟩ := definition_reads c
    rw [statement_def hmark hindent hdef]
    exact (hfunction hdef).reads hfront
  case case4 =>
    intro scope c hmark hindent decorated here hdef hclass hclassDef
    obtain ⟨front, hfront⟩ := definition_reads c
    rw [statement_class hmark hindent hdef hclass]
    exact (hclassDef hclass).reads hfront
  case case5 =>
    intro scope c hmark hindent decorated here hdef hclass hsimple
    exact statement_simple_breaksAhead hmark hindent hdef hclass hsimple
  -- A statement that defines nothing, with its block or with the docstring of its constant.
  case case6 =>
    intro scope c words behind hcompound hblock
    exact simpleStatement_compound_breaksAhead hcompound hblock
  case case7 | case8 =>
    intro scope c words behind hline
    intros
    exact simpleStatement_line_breaksAhead hline
  -- A block: its end, or a statement and the rest; one that reads nothing is the last.
  case case9 =>
    intro scope c hend
    rw [block_end hend]
    exact .of_reported rfl
  case case10 =>
    intro scope c hmore first hshorter hfirst hblock
    obtain ⟨run, hreads, -⟩ := (scan_holds context).1 scope c
    rw [block_more hmore hshorter]
    exact hfirst.append (hblock.reads hreads)
  case case11 =>
    intro scope c hmore first hsame hfirst
    rw [block, if_neg hmore]
    simp only
    rw [if_neg hsame]
    exact hfirst
  -- A definition: its header is refused, or its suite follows.
  case case12 =>
    intro scope start c scan hnone hclass
    rw [classDef_of_none hnone]
    exact .of_reported (any_isFatal_classHeader c)
  case case13 =>
    intro scope start c scan header hsome hsuite hclass
    exact classDef_of_some_breaksAhead hclass hsome hsuite
  -- A suite: a block below the header, or a statement behind it.
  case case14 =>
    intro scope c hline here hindent literal rest hdocstring hblock
    obtain ⟨t, more, -, -, hreads⟩ := docstring?_reads hdocstring
    rw [suite_block_docstring hline hindent hdocstring]
    exact hblock.reads ((Reads.skip c 1).trans ((Reads.skip _ 1).trans hreads))
  case case15 =>
    intro scope c hline here hindent hnone hblock
    rw [suite_block hline hindent hnone]
    exact hblock.reads ((Reads.skip c 1).trans (.skip _ 1))
  case case16 =>
    intro scope c hline here hindent
    rw [suite_unindented hline (Bool.eq_false_of_not_eq_true hindent)]
    exact .of_reported rfl
  case case17 =>
    intro scope c hline literal rest hdocstring hend
    rw [suite_docstring hline hdocstring, if_pos hend]
    exact .of_reported rfl
  case case18 =>
    intro scope c hline literal rest hdocstring hmore hsimple
    obtain ⟨t, more, -, -, hreads⟩ := docstring?_reads hdocstring
    rw [suite_docstring hline hdocstring, if_neg hmore]
    exact hsimple.reads hreads
  case case19 =>
    intro scope c hline hnone hend
    rw [suite_line hline hnone, if_pos hend]
    exact .of_reported rfl
  case case20 =>
    intro scope c hline hnone hmore hsimple
    rw [suite_line hline hnone, if_neg hmore]
    exact hsimple
  case case21 =>
    intro scope decorators start c scan hnone hdef
    exact functionDef_of_none_breaksAhead hdef hnone
  case case22 =>
    intro scope decorators start c scan header hsome hsuite hdef
    exact functionDef_of_some_breaksAhead hdef hsome hsuite

/-- Where the statements of a file break off, the header that breaks is ahead. -/
theorem statements_breaksAhead (context : ScanContext) (c : TokenCursor) :
    BreaksAhead c (statements context c) := by
  have hfirst (c : TokenCursor) : BreaksAhead c (statement context ⟨.atModule, true⟩ c).1 :=
    (scan_breaksAhead context).1 ⟨.atModule, true⟩ c
  fun_induction statements context c with
  | case1 c _ => exact .of_reported rfl
  | case2 c _ first _ ih =>
      obtain ⟨run, hreads, -⟩ := (scan_holds context).1 ⟨.atModule, true⟩ c
      exact (hfirst c).append (ih.reads hreads)
  | case3 c _ first _ => exact hfirst c

end Scanner

/-! ### The lexer -/

namespace Lexeme

variable {cause : FaultCause}

theorem isFatal_cause_ofQuoted {n : Nat} {s : Bytes} (h : (ofQuoted n s).cause = some cause)
    (position : Position) : Fault.isFatal ⟨position, cause⟩ = false := by
  dsimp only [ofQuoted] at h
  split at h <;> cases h
  rfl

theorem isFatal_cause {c : UInt8} {r : Bytes} (h : (first c r).cause = some cause)
    (position : Position) : Fault.isFatal ⟨position, cause⟩ = false := by
  unfold first at h
  split at h
  · exact isFatal_cause_ofQuoted h position
  · split at h
    · dsimp only [ofWord] at h
      split at h
      · exact isFatal_cause_ofQuoted h position
      · cases h
    · split at h
      · cases h
      · split at h
        · cases h
        · cases h
          rfl

end Lexeme

namespace Lexer

variable {l : Lexer} {here : ByteCursor} {fault : Fault}

theorem fault_not_mem_optionalComment : LexItem.fault fault ∉ (optionalComment here).1 := by
  unfold optionalComment
  split <;> simp

theorem fault_of_mem_layout {levels : List Nat} {width : Nat}
    (h : LexItem.fault fault ∈ (layout here levels width).1) : fault.isFatal = false := by
  unfold layout at h
  split at h
  · simp at h
  · rcases List.mem_append.1 h with h | h
    · simp at h
    · split at h <;> simp at h
      rw [h]
      rfl

theorem fault_of_mem_startLine (h : LexItem.fault fault ∈ l.startLine.1) :
    fault.isFatal = false := by
  dsimp only [startLine] at h
  split at h
  · exact absurd h fault_not_mem_optionalComment
  · split at h
    · exact absurd h fault_not_mem_optionalComment
    · rcases List.mem_append.1 h with h | h
      · exact absurd h fault_not_mem_optionalComment
      · exact fault_of_mem_layout h

theorem fault_of_mem_finish (h : LexItem.fault fault ∈ (l.finish here).1) :
    fault.isFatal = false := by
  simp only [finish, List.mem_append, List.mem_map, List.mem_singleton] at h
  rcases h with ((h | h) | ⟨_, _, h⟩) | h
  · split at h <;> simp at h
    rw [h]
    rfl
  · split at h <;> simp at h
  · cases h
  · cases h

theorem fault_of_mem_readLexeme {c : UInt8} {r : Bytes}
    (h : LexItem.fault fault ∈ (l.readLexeme here c r).1) : fault.isFatal = false := by
  rcases List.mem_append.1 h with h | h
  · split at h
    · cases h
    next cause hcause =>
      cases List.mem_singleton.1 h
      exact Lexeme.isFatal_cause hcause here.position
  · cases List.mem_singleton.1 h

theorem fault_not_mem_endLine : LexItem.fault fault ∉ (l.endLine here).1 := by
  unfold endLine
  repeat' split
  all_goals simp

theorem fault_of_mem_resume (h : LexItem.fault fault ∈ l.resume.1) : fault.isFatal = false := by
  dsimp only [resume] at h
  split at h
  · exact fault_of_mem_finish h
  · split at h
    · cases List.mem_singleton.1 h
    · split at h
      · exact absurd h fault_not_mem_endLine
      · exact fault_of_mem_readLexeme h

/-- What the lexer objects to is reported. -/
theorem fault_of_mem_run (h : LexItem.fault fault ∈ l.run.1) : fault.isFatal = false := by
  fun_induction run l with
  | case1 l _ => cases h
  | case2 l _ rest ih =>
      rcases List.mem_append.1 h with h | h
      · unfold step at h
        split at h
        · exact fault_of_mem_startLine h
        · exact fault_of_mem_resume h
      · exact ih h

end Lexer

namespace ScannedSource

variable {context : ScanContext} {tokens : List Token}

/-- Without a header that breaks there is no fatal fault. -/
theorem not_isBroken (context : ScanContext)
    (h : ∀ c, (TokenCursor.ofTokens tokens).LeadsTo c → c.breaksHeader = false) :
    (ofTokens context tokens).isBroken = false := by
  by_contra hbroken
  rw [isBroken, (ofTokens_eq_statements context tokens).2] at hbroken
  obtain ⟨c, hc, hbreaks⟩ := statements_breaksAhead context _ (Bool.eq_true_of_not_eq_false hbroken)
  obtain ⟨run, hreads⟩ := behindDocstring_reads (.ofTokens tokens)
  rw [h c (.trans ⟨run, hreads⟩ hc)] at hbreaks
  cases hbreaks

end ScannedSource

/-- The scan of a source text is finished, if a word can count its bytes and no header breaks. -/
theorem ScanOutcome.ofSource_eq_finished {source : Bytes} (hsize : source.length < 2 ^ 32)
    (h : ∀ c, (TokenCursor.ofTokens (LexedSource.ofSource source).tokens).LeadsTo c →
      c.breaksHeader = false) :
    ofSource source = .finished (ScannedSource.ofSource source) := by
  have hlexed : (LexedSource.ofSource source).faults.any Fault.isFatal = false :=
    List.any_eq_false.2 fun fault hfault => by
      rw [Lexer.fault_of_mem_run (LexedSource.mem_faults_iff.1 hfault)]
      exact Bool.false_ne_true
  have hwhole := ScannedSource.not_isBroken ⟨source, (LexedSource.ofSource source).comments⟩ h
  have hall : (ScannedSource.ofSource source).isBroken = false := by
    rw [ScannedSource.ofSource, ScannedSource.isBroken, List.any_append, hlexed]
    exact hwhole
  rw [ofSource, LexedSource.ofSource?_eq_some hsize]
  dsimp only
  rw [ScannedSource.outcome, hall, if_neg Bool.false_ne_true]

end DocLint
