import DocLint.Source.Scanner

/-!
# The cases of the scanner

One equation for each way in which a statement, a block, a definition or a suite is read, so that
proofs about scans need not open the recursion.

* `statement_mark`, `statement_indented`, `statement_def`, `statement_class`,
  `statement_simple`: what a statement begins with.
* `simpleStatement_compound`, `simpleStatement_line`: a statement that defines nothing.
* `block_end`, `block_more`: a block ends, or another statement follows.
* `functionDef_of_none`, `functionDef_of_some`, `classDef_of_none`, `classDef_of_some`: the header is
  refused, or its suite follows.
* `suite_block`, `suite_block_docstring`, `suite_unindented`: a suite on lines of its own.
* `suite_docstring`, `suite_line`: a suite on the line of its header.
-/

namespace DocLint

namespace Scanner

variable {context : ScanContext} {scope : Scope} {start : Position} {c : TokenCursor}

/-! ### Statements -/

theorem statement_mark (h : (c.isAt .newline || c.isAt .dedent) = true) :
    statement context scope c = ({}, c.advance) := by
  rw [statement, if_pos h]

section Statement

variable (hmark : ¬ (c.isAt .newline || c.isAt .dedent) = true)
include hmark

theorem statement_indented (hindent : c.isAt .indent = true) :
    statement context scope c = block context scope c.advance := by
  rw [statement, if_neg hmark, if_pos hindent]

variable (hindent : ¬ c.isAt .indent = true)
include hindent

theorem statement_def (hdef : (skipAsync (decorators c).2).isAt (.keyword .kDef) = true) :
    statement context scope c =
      functionDef context scope (decorators c).1 c.position (skipAsync (decorators c).2) := by
  rw [statement, if_neg hmark, if_neg hindent]
  simp only
  rw [if_pos hdef]

variable (hdef : ¬ (skipAsync (decorators c).2).isAt (.keyword .kDef) = true)
include hdef

theorem statement_class (hclass : (skipAsync (decorators c).2).isAt (.keyword .kClass) = true) :
    statement context scope c = classDef context scope c.position (skipAsync (decorators c).2) := by
  rw [statement, if_neg hmark, if_neg hindent]
  simp only
  rw [if_neg hdef, if_pos hclass]

theorem statement_simple (hclass : ¬ (skipAsync (decorators c).2).isAt (.keyword .kClass) = true) :
    statement context scope c =
      let here := skipAsync (decorators c).2
      (.ofFaults (if (decorators c).1.isEmpty then []
          else [here.expected "function or class definition after decorator"]) ++
        (simpleStatement context scope here).1, (simpleStatement context scope here).2) := by
  rw [statement, if_neg hmark, if_neg hindent]
  simp only
  rw [if_neg hdef, if_neg hclass]

end Statement

theorem simpleStatement_compound (h : (isCompound (statementTokens c) &&
      ((statementEnd c).skipIf .newline).isAt .indent) = true) :
    simpleStatement context scope c =
      let body := block context (blockScope scope) ((statementEnd c).skipIf .newline).advance
      ({ counts := countsOf (statementTokens c) } ++ body.1, body.2) := by
  rw [simpleStatement]
  simp only
  rw [if_pos h]

/-- A statement on one line, with the docstring of the constant that it may declare. -/
theorem simpleStatement_line (h : ¬ (isCompound (statementTokens c) &&
      ((statementEnd c).skipIf .newline).isAt .indent) = true) :
    simpleStatement context scope c =
      match if scope.kind == .atModule && scope.collected then constant? context c else none with
      | none => ({ counts := countsOf (statementTokens c) }, (statementEnd c).skipIf .newline)
      | some (declaration, rest) =>
        ({ declarations := [declaration], counts := countsOf (statementTokens c) }, rest) := by
  rw [simpleStatement]
  exact if_neg h

/-- An assignment begins with a name. -/
theorem kind_of_isAssignment {name : Token} {rest : List Token}
    (h : isAssignment (name :: rest) = true) : name.kind = .identifier := by
  cases rest with
  | nil => cases h
  | cons t more =>
      rw [isAssignment, Bool.and_eq_true, beq_iff_eq] at h
      exact h.1

/-! ### Blocks -/

theorem block_end (h : (c.isAt .dedent || c.atEnd) = true) :
    block context scope c = ({}, c.skipIf .dedent) := by
  rw [block, if_pos h]

theorem block_more (hmore : ¬ (c.isAt .dedent || c.atEnd) = true)
    (hshorter : (statement context scope c).2.length < c.length) :
    block context scope c =
      let first := statement context scope c
      (first.1 ++ (block context scope first.2).1, (block context scope first.2).2) := by
  rw [block, if_neg hmore]
  simp only
  rw [if_pos hshorter]

/-! ### Definitions -/

theorem functionDef_of_none (h : (functionHeader context.source c).header = none)
    (decorators : List Bytes) :
    functionDef context scope decorators start c =
      (.ofFaults (functionHeader context.source c).faults,
        (functionHeader context.source c).rest) := by
  rw [functionDef]
  simp only
  split
  · rfl
  next hsome =>
    rw [h] at hsome
    cases hsome

theorem functionDef_of_some {header : FunctionHeader}
    (h : (functionHeader context.source c).header = some header) (decorators : List Bytes) :
    functionDef context scope decorators start c =
      let scan := functionHeader context.source c
      let body := suite context ⟨.inFunction, false⟩ scan.rest
      (.ofFaults (scan.faults ++ body.2.1.faults) ++
        functionFindings context scope start header
          (ownParameters scope.kind decorators header.parameters) body.1 body.2.1.counts
          body.2.2.lastStop, body.2.2) := by
  rw [functionDef]
  simp only
  split
  next hnone =>
    rw [h] at hnone
    cases hnone
  next hsome =>
    rw [h] at hsome
    cases hsome
    rfl

theorem classDef_of_none (h : (classHeader c).header = none) :
    classDef context scope start c = (.ofFaults (classHeader c).faults, (classHeader c).rest) := by
  rw [classDef]
  simp only
  split
  · rfl
  next hsome =>
    rw [h] at hsome
    cases hsome

theorem classDef_of_some {header : ClassHeader} (h : (classHeader c).header = some header) :
    classDef context scope start c =
      let body := suite context ⟨.inClass, isCollectedClass scope⟩ (classHeader c).rest
      (.ofFaults ((classHeader c).faults ++ body.2.1.faults) ++
        classFindings context scope start header body.1 body.2.1 body.2.2.lastStop, body.2.2) := by
  rw [classDef]
  simp only
  split
  next hnone =>
    rw [h] at hnone
    cases hnone
  next hsome =>
    rw [h] at hsome
    cases hsome
    rfl

/-! ### Suites -/

section Block

variable (hline : c.isAt .newline = true)
include hline

theorem suite_unindented (hindent : c.advance.isAt .indent = false) :
    suite context scope c =
      (none, .ofFaults [c.advance.expected "an indented block"], c.advance) := by
  rw [suite, if_pos hline]
  simp only
  rw [if_neg (by simp [hindent])]

variable (hindent : c.advance.isAt .indent = true)
include hindent

theorem suite_block_docstring {literal : DocLiteral} {rest : TokenCursor}
    (h : docstring? c.advance.advance = some (literal, rest)) :
    suite context scope c =
      (some literal, (block context scope rest).1, (block context scope rest).2) := by
  rw [suite, if_pos hline]
  simp only
  rw [if_pos hindent]
  split
  next hsome =>
    rw [h] at hsome
    cases hsome
    rfl
  next hnone =>
    rw [h] at hnone
    cases hnone

theorem suite_block (h : docstring? c.advance.advance = none) :
    suite context scope c =
      (none, (block context scope c.advance.advance).1,
        (block context scope c.advance.advance).2) := by
  rw [suite, if_pos hline]
  simp only
  rw [if_pos hindent]
  split
  next hsome =>
    rw [h] at hsome
    cases hsome
  · rfl

end Block

section Line

variable (hline : ¬ c.isAt .newline = true)
include hline

/-- The docstring ends the line, or another statement stands behind it. -/
theorem suite_docstring {literal : DocLiteral} {rest : TokenCursor}
    (h : docstring? c = some (literal, rest)) :
    suite context scope c =
      if rest.atEnd || rest.before.head?.any (fun t => t.kind == .newline) then
        (some literal, {}, rest)
      else (some literal, (simpleStatement context scope rest).1,
        (simpleStatement context scope rest).2) := by
  rw [suite, if_neg hline]
  split
  next hsome =>
    rw [h] at hsome
    cases hsome
    rfl
  next hnone =>
    rw [h] at hnone
    cases hnone

theorem suite_line (h : docstring? c = none) :
    suite context scope c =
      if c.atEnd then (none, {}, c)
      else (none, (simpleStatement context scope c).1, (simpleStatement context scope c).2) := by
  rw [suite, if_neg hline]
  split
  next hsome =>
    rw [h] at hsome
    cases hsome
  · rfl

end Line

end Scanner

end DocLint
