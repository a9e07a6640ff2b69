import DocLint.Check.Summary
import DocLint.Proofs.Text.Lines

/-!
# What a summary is made of

The summary proper is a paragraph: none of its lines is blank.  So every rule that looks for the
first byte of a summary finds one.

* `summaryLines_ofLiteral_mem`, `summaryLines_ofLiteral_not_blank`: the summary of a docstring
  consists of lines that are not blank.
* `rest_read_suffix`: reading the summary goes forward through the lines.
* `mem_of_mem_read`, `extended_ne_nil`: what is read are lines, and an extended summary has some.
* `read_consecutive`: the summary proper consists of consecutive lines.
-/

namespace DocLint

open Bytes

/-- A paragraph ends in front of its first blank line. -/
theorem take_paragraphLength_not_blank (lines : List DocLine) :
    ∀ line ∈ lines.take (paragraphLength lines), line.isBlank = false := by
  induction lines with
  | nil => simp [paragraphLength]
  | cons first rest ih =>
      unfold paragraphLength
      by_cases hstop : (first.isBlank || isBoundary (first :: rest)) = true
      · rw [if_pos hstop]
        simp
      · rw [if_neg hstop, List.take_succ_cons]
        intro line hline
        rcases List.mem_cons.1 hline with rfl | hline
        · simp only [Bool.or_eq_true, not_or, Bool.not_eq_true] at hstop
          exact hstop.1
        · exact ih line hline

namespace DocSummary

/-- No line of the summary proper is blank, however many signatures were passed over. -/
theorem readProper_not_blank (r : LineReader) :
    ∀ line ∈ (readProper r).1, line.isBlank = false := by
  fun_induction readProper r with
  | case1 r paragraph next _ ih => exact ih
  | case2 r paragraph next _ => exact take_paragraphLength_not_blank r.rest

/-- The lines of a summary that was read are not blank. -/
theorem read_not_blank {r : LineReader} {s : DocSummary} (h : (read r).1 = some s) :
    ∀ line ∈ s.summary, line.isBlank = false := by
  unfold read at h
  dsimp only at h
  split at h
  · cases h
    exact readProper_not_blank _
  · cases h

/-! ### What is read -/

theorem rest_skipBlank_suffix (r : LineReader) : r.skipBlank.rest <:+ r.rest := List.drop_suffix _ _

theorem rest_readProper_suffix (r : LineReader) : (readProper r).2.rest <:+ r.rest := by
  fun_induction readProper r with
  | case1 r paragraph next _ ih =>
      exact ih.trans ((rest_skipBlank_suffix paragraph.2).trans (List.drop_suffix _ _))
  | case2 r paragraph next _ => exact List.drop_suffix _ _

theorem mem_of_mem_readProper {r : LineReader} {line : DocLine} (h : line ∈ (readProper r).1) :
    line ∈ r.rest := by
  fun_induction readProper r with
  | case1 r paragraph next _ ih =>
      exact (List.drop_suffix _ _).subset ((rest_skipBlank_suffix paragraph.2).subset (ih h))
  | case2 r paragraph next _ => exact List.mem_of_mem_take h

theorem rest_readExtended_suffix (r : LineReader) : (readExtended r).2.rest <:+ r.rest := by
  unfold readExtended
  dsimp only
  split
  · exact (List.drop_suffix _ _).trans (rest_skipBlank_suffix r)
  · exact rest_skipBlank_suffix r

/-- An extended summary consists of lines, and has at least one. -/
theorem readExtended_eq_some {r : LineReader} {p : Paragraph} (h : (readExtended r).1 = some p) :
    p ≠ [] ∧ ∀ line ∈ p, line ∈ r.rest := by
  unfold readExtended at h
  dsimp only at h
  split at h
  · split at h
    · cases h
    next hne =>
      cases h
      refine ⟨by simpa using hne, fun line hline => ?_⟩
      have hmem := (List.dropWhile_suffix _).subset hline
      rw [List.mem_reverse] at hmem
      have hmem' := (List.dropWhile_suffix _).subset hmem
      rw [List.mem_reverse] at hmem'
      exact (rest_skipBlank_suffix r).subset (List.mem_of_mem_take hmem')
  · cases h

/-- Reading the summary goes forward through the lines. -/
theorem rest_read_suffix (r : LineReader) : (read r).2.rest <:+ r.rest := by
  unfold read
  dsimp only
  split
  · exact (rest_readExtended_suffix _).trans
      ((rest_readProper_suffix _).trans (rest_skipBlank_suffix r))
  · exact rest_skipBlank_suffix r

theorem mem_of_mem_read {r : LineReader} {s : DocSummary} (h : (read r).1 = some s)
    {line : DocLine} (hline : line ∈ s.summary ++ s.extended.getD []) : line ∈ r.rest := by
  unfold read at h
  dsimp only at h
  split at h
  · cases h
    rcases List.mem_append.1 hline with hline | hline
    · exact (rest_skipBlank_suffix r).subset (mem_of_mem_readProper hline)
    · cases hextended : (readExtended (readProper r.skipBlank).2).1 with
      | none => simp [hextended] at hline
      | some p =>
          simp only [hextended, Option.getD_some] at hline
          exact (rest_skipBlank_suffix r).subset
            ((rest_readProper_suffix _).subset ((readExtended_eq_some hextended).2 line hline))
  · cases h

theorem readProper_consecutive (r : LineReader) : (readProper r).1 <:+: r.rest := by
  fun_induction readProper r with
  | case1 r paragraph next _ ih =>
      exact ih.trans ((rest_skipBlank_suffix paragraph.2).trans (List.drop_suffix _ _)).isInfix
  | case2 r paragraph next _ => exact (List.take_prefix _ _).isInfix

/-- A summary consists of consecutive lines. -/
theorem read_consecutive {r : LineReader} {s : DocSummary} (h : (read r).1 = some s) :
    s.summary <:+: r.rest := by
  unfold read at h
  dsimp only at h
  split at h
  · cases h
    exact (readProper_consecutive _).trans (rest_skipBlank_suffix r).isInfix
  · cases h

theorem extended_ne_nil {r : LineReader} {s : DocSummary} (h : (read r).1 = some s) :
    s.extended ≠ some [] := by
  unfold read at h
  dsimp only at h
  split at h
  · cases h
    exact fun hnil => (readExtended_eq_some hnil).1 rfl
  · cases h

end DocSummary

/-- A docstring has at least one line. -/
theorem ofLiteral_lines_ne_nil (literal : DocLiteral) :
    (Docstring.ofLiteral literal).1.lines ≠ [] := by
  have hlength := literal.length_lines.trans (Bytes.length_lines literal.body)
  exact List.ne_nil_of_length_pos (Nat.lt_of_lt_of_eq (Nat.succ_pos _) hlength.symm)

/-- The summary of a docstring consists of its lines. -/
theorem summaryLines_ofLiteral_mem (literal : DocLiteral) :
    ∀ line ∈ Check.summaryLines (Docstring.ofLiteral literal).1,
      line ∈ (Docstring.ofLiteral literal).1.lines := by
  intro line hline
  unfold Check.summaryLines at hline
  cases hsummary : (Docstring.ofLiteral literal).1.summary with
  | none => simp [hsummary] at hline
  | some s =>
      rw [hsummary] at hline
      exact DocSummary.mem_of_mem_read (r := { rest := literal.lines }) hsummary
        (List.mem_append_left _ hline)

/-- No line of the summary of a docstring is blank. -/
theorem summaryLines_ofLiteral_not_blank (literal : DocLiteral) :
    ∀ line ∈ Check.summaryLines (Docstring.ofLiteral literal).1, line.isBlank = false := by
  unfold Check.summaryLines
  cases hsummary : (Docstring.ofLiteral literal).1.summary with
  | none => simp
  | some s => exact DocSummary.read_not_blank hsummary

end DocLint
