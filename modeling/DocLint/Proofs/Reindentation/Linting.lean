import DocLint.Proofs.Reindentation.Checks
import Mathlib.Algebra.Group.Nat.Defs

/-!
# Reindentation and linting

Some rules compare places: lines with the line at which the docstring begins, columns with the
column of the literal.  In a docstring that was read from a literal these comparisons come out alike
before and after the move, provided that no line and no column is wrapped around.

* `Placed`: how the lines of a docstring stand to its literal.
* `placed_ofLiteral`: the lines of a literal stand so.
* `registered_follows`: all checks follow the docstring.
* `linting_reindent`: a closed literal that is moved and reindented is linted alike.
-/

namespace DocLint

open Bytes

/-- The first line stands behind the opening delimiter, all others begin a line of the file; the
columns leave room for `k` more.  The summary consists of lines that are not blank. -/
structure Docstring.Placed (k : Nat) (doc : Docstring) : Prop where
  indent_lt : doc.indent.toNat + 1 + k < 2 ^ 32
  line_place : ∀ line ∈ doc.lines,
    line.position.column = 1 ∧ Check.lineIndex doc line ≠ 0 ∨
      line.position.column ≠ 1 ∧ Check.lineIndex doc line = 0 ∧
        line.position.column.toNat + k < 2 ^ 32
  summary_mem : ∀ line ∈ Check.summaryLines doc, line ∈ doc.lines
  summary_readable : ∀ line ∈ Check.summaryLines doc, line.isBlank = false
  extended_ne_nil : ∀ s, doc.summary = some s → s.extended ≠ some []

theorem Position.slide_eq_shift {p : Position} (h : p.column ≠ 1) (n k : Nat) :
    p.slide n k = p.shift n k := by
  rw [slide, if_neg h]

theorem toNat_max (a b : UInt32) : (max a b).toNat = max a.toNat b.toNat := by
  rw [show max a b = if a ≤ b then b else a from rfl, Nat.max_def, apply_ite UInt32.toNat]
  rfl

/-- Where nothing wraps around, the larger of two columns moves with them. -/
theorem max_add_column {c i : UInt32} {k : Nat} (hc : c.toNat + k < 2 ^ 32)
    (hi : i.toNat + 1 + k < 2 ^ 32) :
    max (c + UInt32.ofNat k) (i + UInt32.ofNat k + 1) = max c (i + 1) + UInt32.ofNat k := by
  apply UInt32.toNat_inj.1
  simp only [toNat_max, UInt32.toNat_add, UInt32.toNat_ofNat', UInt32.toNat_one]
  omega

namespace Check

variable {n k : Nat} {doc : Docstring}

theorem lineIndex_reindent (n k : Nat) (doc : Docstring) (line : DocLine) :
    lineIndex (doc.reindent n k) (line.reindent n k) = lineIndex doc line := by
  unfold lineIndex
  rw [Docstring.reindent]
  cases doc.lines with
  | nil => rfl
  | cons first rest =>
      simp only [List.map_cons, DocLine.position_reindent, Position.slide, Position.shift]
      congr 1
      grind

theorem toNat_indent_reindent (h : doc.Placed k) (n : Nat) :
    (doc.reindent n k).indent.toNat = doc.indent.toNat + k := by
  have hlt := h.indent_lt
  rw [Docstring.reindent, UInt32.toNat_add, UInt32.toNat_ofNat']
  omega

/-- The indentation that is asked for grows like the indentation that a line has. -/
theorem expectedIndent_reindent (h : doc.Placed k) (n : Nat) {line : DocLine}
    (hline : line ∈ doc.lines) :
    (doc.reindent n k).expectedIndent (lineIndex (doc.reindent n k) (line.reindent n k)) =
      line.gained k + doc.expectedIndent (lineIndex doc line) := by
  rw [lineIndex_reindent, Docstring.expectedIndent, Docstring.expectedIndent,
    toNat_indent_reindent h, DocLine.gained]
  rcases h.line_place line hline with ⟨hcolumn, hindex⟩ | ⟨hcolumn, hindex, -⟩
  · rw [if_neg hindex, if_neg hindex, if_pos hcolumn, Nat.add_comm]
  · rw [if_pos hindex, if_pos hindex, if_neg hcolumn]

/-- The beginning of a line, but not left of the literal, moves. -/
theorem lineAnchor_reindent (h : doc.Placed k) (n : Nat) {line : DocLine}
    (hline : line ∈ doc.lines) :
    (doc.reindent n k).lineAnchor (line.reindent n k) = (doc.lineAnchor line).shift n k := by
  have hlt := h.indent_lt
  rw [Docstring.lineAnchor, DocLine.position_reindent, Docstring.reindent, Docstring.lineAnchor]
  simp only [Position.withColumn, Position.slide, Position.shift, Position.mk.injEq, true_and]
  rcases h.line_place line hline with ⟨hcolumn, -⟩ | ⟨hcolumn, -, hroom⟩
  · -- The literal stands right of the beginning of the line, before and after.
    rw [if_pos hcolumn, hcolumn]
    apply UInt32.toNat_inj.1
    simp only [toNat_max, UInt32.toNat_add, UInt32.toNat_ofNat', UInt32.toNat_one]
    omega
  · rw [if_neg hcolumn]
    exact max_add_column hroom hlt

/-- A warning and the line where it belongs move alike. -/
theorem eq_deprecationLine_map (n k : Nat) {s : DocSummary} (hextended : s.extended ≠ some [])
    {span : Span} (hspan : span ∈ summaryDeprecations s) :
    (span.shift n k).start.line = deprecationLine (s.map (DocLine.reindent n k)) ↔
      span.start.line = deprecationLine s := by
  have hlines : (s.map (DocLine.reindent n k)).extended.getD
      (s.map (DocLine.reindent n k)).summary =
      (s.extended.getD s.summary).map (DocLine.reindent n k) := by
    rw [DocSummary.map]
    cases s.extended with
    | none => rfl
    | some p => rfl
  unfold deprecationLine
  rw [hlines, List.head?_map]
  cases hhead : (s.extended.getD s.summary).head? with
  | none =>
      -- Without lines there is no warning.
      rw [List.head?_eq_none_iff] at hhead
      cases hs : s.extended with
      | none =>
          rw [hs, Option.getD_none] at hhead
          simp [summaryDeprecations, deprecations, hs, hhead] at hspan
      | some p =>
          rw [hs, Option.getD_some] at hhead
          exact absurd (hs.trans (congrArg some hhead)) hextended
  | some line =>
      simp only [Option.map_some, DocLine.position_reindent, Position.slide, Span.shift,
        Position.shift]
      exact UInt32.add_left_inj _

end Check

/-- A docstring that stands as it needs to is told again by its move. -/
theorem Docstring.Placed.retold {k : Nat} {doc : Docstring} (h : doc.Placed k) (n : Nat) :
    doc.Retold (reindentation n k) (fun p q => q = p.shift n k) (doc.reindent n k) where
  lawful := lawful_reindentation n k
  lines_eq := rfl
  summary_eq := rfl
  sections_eq := rfl
  start := rfl
  opening := by
    intro first hfirst
    -- The first line is the one from which lines are counted.
    have hindex : Check.lineIndex doc first = 0 := by
      obtain ⟨rest, hlines⟩ := List.head?_eq_some_iff.1 hfirst
      rw [Check.lineIndex, hlines]
      simp
    have hcolumn : first.position.column ≠ 1 := by
      rcases h.line_place first (List.mem_of_head? hfirst) with ⟨-, hne⟩ | ⟨hcolumn, -⟩
      · exact absurd hindex hne
      · exact hcolumn
    exact (first.position_reindent n k).trans (Position.slide_eq_shift hcolumn n k)
  lineAnchor := fun line hline => Check.lineAnchor_reindent h n hline
  expectedIndent := fun line hline => Check.expectedIndent_reindent h n hline
  summary_mem := h.summary_mem
  summary_readable := h.summary_readable
  deprecationLine := fun s hs span hspan =>
    Check.eq_deprecationLine_map n k (h.extended_ne_nil s hs) hspan

namespace Check

/-- Where a finding stands after the docstring of the declaration has moved. -/
def moved (n k : Nat) (d : Declaration) (code : Bytes) : Span → Span :=
  if standsAtDeclaration d code then fun s => s else Span.shift n k

/-- Every registered check follows the docstring, or stays at the declaration. -/
theorem registered_follows {k : Nat} {doc : Docstring} (n : Nat) (d : Declaration)
    (h : doc.Placed k) : ∀ check ∈ registered,
      Follows (moved n k d check.id) (check.run d doc) (check.run d (doc.reindent n k)) := by
  intro check hcheck
  have hretold := h.retold n
  have hverb := summaryVerb_retold hretold d fun line => DocLine.stripStart_push line
  refine (registered_retold hretold d check hcheck fun _ => hverb).follows fun s s' hplaces => ?_
  by_cases hcode : standsAtDeclaration d check.id = true
  · rw [corresponds, if_pos hcode] at hplaces
    rw [moved, if_pos hcode, hplaces]
  · rw [corresponds, if_neg hcode] at hplaces
    rw [moved, if_neg hcode]
    exact congrArg₂ Span.mk hplaces.1 hplaces.2

end Check

/-! ### Literals -/

/-- The lines of a literal stand as its docstring needs it. -/
theorem Docstring.placed_ofLiteral {literal : DocLiteral} {k : Nat}
    (hstart : literal.bodyStart.column ≠ 1)
    (hcolumn : literal.bodyStart.column.toNat + k < 2 ^ 32)
    (hindent : literal.indent.toNat + 1 + k < 2 ^ 32)
    (hlines : literal.body.count newline < 2 ^ 32) :
    (ofLiteral literal).1.Placed k where
  indent_lt := hindent
  line_place := by
    intro line hline
    obtain ⟨first, rest, hbody⟩ := List.exists_cons_of_ne_nil (lines_ne_nil literal.body)
    have hlength : rest.length < 2 ^ 32 := by
      have hcount := Bytes.length_lines literal.body
      rw [hbody, List.length_cons] at hcount
      omega
    have hcons := DocLiteral.lines_of_body hbody
    have hindex (l : DocLine) : Check.lineIndex (ofLiteral literal).1 l =
        (l.position.line - literal.bodyStart.line).toNat := by
      rw [Check.lineIndex, show (ofLiteral literal).1.lines = literal.lines from rfl, hcons]
    rw [show (ofLiteral literal).1.lines = literal.lines from rfl, hcons] at hline
    -- The first line stands behind the delimiter, every other one in the first column.
    rcases List.mem_cons.1 hline with rfl | hrest
    · refine .inr ⟨hstart, ?_, hcolumn⟩
      rw [hindex]
      simp
    · obtain ⟨i, hi, rfl⟩ := List.mem_mapIdx.1 hrest
      refine .inl ⟨rfl, ?_⟩
      rw [hindex, UInt32.add_comm, UInt32.add_sub_cancel, UInt32.toNat_ofNat']
      omega
  summary_mem := summaryLines_ofLiteral_mem literal
  summary_readable := summaryLines_ofLiteral_not_blank literal
  extended_ne_nil := fun _ hs => DocSummary.extended_ne_nil (r := { rest := literal.lines }) hs

/-- A flaw is reported at the moved place. -/
theorem Flaw.diagnostic_shift (n k : Nat) (flaw : Flaw) :
    (flaw.shift n k).diagnostic = flaw.diagnostic.shift n k := by
  cases flaw with
  | crowdedSection header => rfl
  | underlineLength header underline => rfl
  | strayMark position mark =>
      rw [Flaw.shift, Flaw.diagnostic, Span.ofLength_shift]
      rfl

/-- The opening of a literal is part of its first line. -/
theorem IsWritten.opening_length_le {text mark delimiter body : Bytes}
    (h : IsWritten text mark delimiter body) :
    mark.length + delimiter.length ≤ (text.takeWhile fun c => c ≠ newline).length := by
  have hplain : ∀ c ∈ mark ++ delimiter, decide (c ≠ newline) = true := fun c hc =>
    decide_eq_true fun heq => h.newline_not_mem_opening (heq ▸ hc)
  rw [h.text_eq, ← List.append_assoc, List.takeWhile_append_of_pos hplain, List.length_append,
    List.length_append]
  exact Nat.le_add_right _ _

/-- The docstring of a closed literal stands as it needs to, where the columns of its first line
leave room for the move. -/
theorem IsWritten.placed {text mark delimiter body : Bytes}
    (h : IsWritten text mark delimiter body) {start : Position} {k : Nat}
    (hstart : 1 ≤ start.column)
    (hcolumn : start.column.toNat + k + (text.takeWhile fun b => b ≠ newline).length < 2 ^ 32)
    (hlines : text.count newline < 2 ^ 32) :
    (DocLiteral.ofText text start).bodyStart.column ≠ 1 ∧
      (Docstring.ofLiteral (.ofText text start)).1.Placed k := by
  have hopening := h.opening_length_le
  have hpos := h.delimiter_length_pos
  have hone : 1 ≤ start.column.toNat := hstart
  have hbodyStart : (start.right (mark.length + delimiter.length)).column.toNat =
      start.column.toNat + (mark.length + delimiter.length) := by
    rw [Position.right, UInt32.toNat_add, UInt32.toNat_ofNat']
    omega
  have hindentation : (start.column - 1).toNat = start.column.toNat - 1 :=
    UInt32.toNat_sub_of_le _ _ hstart
  have hbodyColumn : (DocLiteral.ofText text start).bodyStart.column ≠ 1 := by
    rw [h.ofText_eq]
    intro heq
    rw [heq, UInt32.toNat_one] at hbodyStart
    omega
  refine ⟨hbodyColumn, Docstring.placed_ofLiteral hbodyColumn ?_ ?_ ?_⟩
  · rw [h.ofText_eq, hbodyStart]
    omega
  · rw [h.ofText_eq, hindentation]
    omega
  · refine Nat.lt_of_le_of_lt ?_ hlines
    rw [h.ofText_eq, h.text_eq]
    simp only [List.count_append]
    omega

/-- A closed literal that stands `n` lines further down and `k` columns further right, with `k`
spaces behind each of its newlines, has the same flaws at the moved places, and every check comes to
the same findings, which have moved as well or stand at the declaration; suggestions may name other
lines and columns.  The columns of the first line must leave room for the move; other lines are only
counted. -/
theorem linting_reindent {c : UInt8} {r : Bytes}
    (hliteral : Lexeme.first c r = ⟨.string, (c :: r).length, none⟩) (start : Position) (n k : Nat)
    (hstart : 1 ≤ start.column)
    (hcolumn : start.column.toNat + k + ((c :: r).takeWhile fun b => b ≠ newline).length < 2 ^ 32)
    (hlines : (c :: r).count newline < 2 ^ 32) (d : Declaration) :
    let before := Docstring.ofLiteral (.ofText (c :: r) start)
    let after := Docstring.ofLiteral (.ofText (reindent k (c :: r)) (start.shift n k))
    after.2.map Flaw.diagnostic = before.2.map (fun flaw => flaw.diagnostic.shift n k) ∧
      ∀ check ∈ Check.registered,
        ∃ found found', check.run d before.1 = .ok found ∧ check.run d after.1 = .ok found' ∧
          found'.map Diagnostic.plain = found.map fun f =>
            Diagnostic.plain { f with span := Check.moved n k d check.id f.span } := by
  intro before after
  have hkind : (Lexeme.first c r).kind = .string := by rw [hliteral]
  obtain ⟨mark, delimiter, body, hwritten⟩ : ∃ mark delimiter body,
      IsWritten (c :: r) mark delimiter body := by
    -- A literal is closed, or a fault is reported: here there is none.
    rcases Lexeme.first_isWritten hkind with hcause | ⟨mark, delimiter, body, hwritten⟩
    · rw [hliteral] at hcause
      cases hcause
    · rw [hliteral, List.take_length] at hwritten
      exact ⟨mark, delimiter, body, hwritten⟩
  obtain ⟨hbodyColumn, hplaced⟩ := hwritten.placed hstart hcolumn hlines
  have hafter : after = (before.1.reindent n k, before.2.map (Flaw.shift n k)) := by
    show Docstring.ofLiteral _ = _
    rw [DocLiteral.ofText_reindent hwritten]
    refine Docstring.ofLiteral_reindent n k hbodyColumn ?_
    have hindent : (DocLiteral.ofText (c :: r) start).indent.toNat + 1 + k < 2 ^ 32 :=
      hplaced.indent_lt
    omega
  rw [hafter]
  refine ⟨?_, Check.registered_follows n d hplaced⟩
  rw [List.map_map]
  exact List.map_congr_left fun flaw _ => flaw.diagnostic_shift n k

/-- A docstring behind its opening quote: its summary begins next to the quotes, a tab stands in its
indentation, and the underline of its section is too short. -/
def crookedText : Bytes :=
  ascii "\"\"do it\n  \there\n    Parameters\n    ------\n    a : int\n    \"\"\""

/-- The crooked docstring in its place and two lines further down, four columns further right. -/
theorem linting_reindent_crookedText :
    Lexeme.first doubleQuote crookedText = ⟨.string, (doubleQuote :: crookedText).length, none⟩ ∧
      (let d : Declaration :=
        { form := .functionDecl ⟨ascii "f", {}⟩ [⟨ascii "b", {}, .positional, none, none⟩] {},
          span := {} }
      let before := Docstring.ofLiteral (.ofText (doubleQuote :: crookedText) ⟨3, 5⟩)
      let after := Docstring.ofLiteral
        (.ofText (reindent 4 (doubleQuote :: crookedText)) (Position.shift 2 4 ⟨3, 5⟩))
      after.2.map Flaw.diagnostic = before.2.map (fun flaw => flaw.diagnostic.shift 2 4) ∧
        ∀ check ∈ Check.registered,
          ∃ found found', check.run d before.1 = .ok found ∧ check.run d after.1 = .ok found' ∧
            found'.map Diagnostic.plain = found.map fun f =>
              Diagnostic.plain { f with span := Check.moved 2 4 d check.id f.span }) := by
  have hliteral : Lexeme.first doubleQuote crookedText =
      ⟨.string, (doubleQuote :: crookedText).length, none⟩ := by decide
  exact ⟨hliteral, linting_reindent hliteral ⟨3, 5⟩ 2 4 (by decide) (by decide)
    (by decide) _⟩

end DocLint
