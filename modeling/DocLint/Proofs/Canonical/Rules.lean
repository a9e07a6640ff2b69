import DocLint.Proofs.Canonical.Reading
import DocLint.Proofs.Check.Discipline

/-!
# The rules about lines and summaries

No rule about the layout, the directives or the summary has anything to say about a docstring that is
read from a sound canonical text.

* `openingLine_silent` and the following: one lemma for each rule.
-/

namespace DocLint

open Bytes

namespace Check

/-- Neighbours in a chain are related. -/
theorem rel_of_mem_zip_tail {α : Type} {R : α → α → Prop} {l : List α} (h : l.IsChain R)
    {a b : α} (hmem : (a, b) ∈ l.zip l.tail) : R a b := by
  induction l with
  | nil => cases hmem
  | cons x l ih =>
      cases l with
      | nil => cases hmem
      | cons y l =>
          obtain ⟨hxy, hrest⟩ := List.isChain_cons_cons.1 h
          rcases List.mem_cons.1 hmem with heq | hmem
          · cases heq
            exact hxy
          · exact ih hrest hmem

end Check

namespace CanonicalText

open Check

namespace IsRead

variable {t : CanonicalText} {indent blank : Nat} {doc : Docstring}

/-! ### Lines -/

section Lines

variable (h : t.IsRead indent blank doc) (hs : t.Sound) (d : Declaration)

include h hs

theorem isTidy_of_mem {line : DocLine} (hline : line ∈ doc.lines) : IsTidy line.text :=
  hs.isTidy_of_mem_lines indent blank (h.texts ▸ List.mem_map_of_mem hline)

theorem openingLine_silent : openingLine d doc = silent := by
  have htexts := h.texts
  rw [t.lines_eq] at htexts
  obtain ⟨opening, _, hlines, hopening, htail⟩ := List.map_eq_cons_iff.1 htexts
  obtain ⟨line, rest, rfl, hline, -⟩ := List.map_eq_cons_iff.1 htail
  have hopening' : opening.isBlank = true := by
    rw [DocLine.isBlank, hopening]
    rfl
  have hline' : line.isBlank = false := by
    rw [DocLine.isBlank, hline, isBlank_spaces_append, hs.summary.not_blank]
  have hblank : (doc.lines.takeWhile DocLine.isBlank).length = 1 := by
    rw [hlines, List.takeWhile_cons_of_pos hopening',
      List.takeWhile_cons_of_neg (by simp [hline'])]
    rfl
  unfold openingLine
  simp only [hblank, or_true, if_true]
  split <;> rfl

theorem closingLine_silent : closingLine d doc = silent := by
  obtain ⟨front, last, hstack, hlast⟩ : ∃ front last,
      stack (spaces blank) (spaces indent) (t.blocks indent) = front ++ [last, spaces indent] ∧
        isBlank last = false :=
    stack_eq_concat (hs.blocks_not_blank indent) (List.cons_ne_nil _ _)
  have htexts := h.texts
  rw [lines, hstack, ← List.cons_append] at htexts
  obtain ⟨above, below, hlines, -, htail⟩ := List.map_eq_append_iff.1 htexts
  obtain ⟨line, _, rfl, hline, htail⟩ := List.map_eq_cons_iff.1 htail
  obtain ⟨closing, _, rfl, hclosing, htail⟩ := List.map_eq_cons_iff.1 htail
  have hline' : line.isBlank = false := by rw [DocLine.isBlank, hline, hlast]
  have hclosing' : closing.isBlank = true := by rw [DocLine.isBlank, hclosing, isBlank_spaces]
  rw [List.map_eq_nil_iff.1 htail] at hlines
  have hblank : Paragraph.blankBelow doc.lines = 1 := by
    -- Seen from the end: the closing line, then a line that is not blank.
    have hreverse : doc.lines.reverse = closing :: line :: above.reverse := by
      rw [hlines, List.reverse_append]
      rfl
    rw [Paragraph.blankBelow, hreverse, List.takeWhile_cons_of_pos hclosing',
      List.takeWhile_cons_of_neg (by simp [hline'])]
    rfl
  unfold closingLine
  simp only [hblank, or_true, if_true]
  split <;> rfl

theorem doubleBlank_silent : doubleBlank d doc = silent := by
  have hapart := hs.blankApart_lines indent blank
  rw [← h.texts, BlankApart, List.isChain_map] at hapart
  have hbody := hapart.prefix (List.dropLast_prefix doc.lines)
  refine mapM_eq_silent_iff.2 (List.filter_eq_nil_iff.2 ?_)
  rintro ⟨a, b⟩ hmem
  rw [Bool.and_eq_true]
  exact rel_of_mem_zip_tail hbody hmem

theorem tabs_silent : tabs d doc = silent := by
  refine mapM_eq_silent_iff.2 (List.filterMap_eq_nil_iff.2 fun line hline => ?_)
  rw [tabSpan?]
  exact if_neg (h.isTidy_of_mem hs hline).no_tab

theorem directiveColons_silent : directiveColons d doc = silent := by
  rw [directiveColons_eq]
  refine mapM_eq_silent_iff.2 (List.filterMap_eq_nil_iff.2 fun line hline => ?_)
  rw [(h.isTidy_of_mem hs hline).no_bareDirective]
  rfl

end Lines

/-! ### The summary -/

section Summary

variable (h : t.IsRead indent blank doc) (d : Declaration)

include h

/-- The summary is one line, and its text stands behind the margin. -/
theorem summaryLines_eq : ∃ line, summaryLines doc = [line] ∧
    line.text = spaces indent ++ t.summary ∧ lineIndex doc line ≠ 0 := by
  obtain ⟨line, extended, hsummary, hline, -, hindex⟩ := h.summary
  refine ⟨line, ?_, hline, hindex⟩
  rw [summaryLines, hsummary]

theorem summaryMissing_silent : summaryMissing d doc = silent := by
  obtain ⟨line, hlines, -, -⟩ := h.summaryLines_eq
  rw [summaryMissing, hlines]
  rfl

theorem summaryLength_silent : summaryLength d doc = silent := by
  obtain ⟨line, hlines, -, -⟩ := h.summaryLines_eq
  rw [summaryLength, hlines]
  rfl

theorem extendedMissing_silent : extendedMissing d doc = silent := by
  obtain ⟨line, extended, hsummary, -, -, -⟩ := h.summary
  rw [extendedMissing, hsummary]
  rfl

variable (hs : t.Sound)

include hs

/-- A deprecation warning can stand on the line of the extended summary only. -/
theorem summaryDeprecations_eq : ∃ line extended, doc.summary = some ⟨[line], some [extended]⟩ ∧
    summaryDeprecations ⟨[line], some [extended]⟩ = deprecations [extended] := by
  obtain ⟨line, extended, hsummary, hline, -, -⟩ := h.summary
  refine ⟨line, extended, hsummary, ?_⟩
  obtain ⟨r, hr⟩ := deprecationMarker_eq_cons
  have hcurrent : includes line.text deprecationMarker = false := by
    rw [hline, includes_spaces_append hr, hs.summary_current]
  have hnone : deprecations [line] = [] := by
    rw [includes, Option.isSome_eq_false_iff, Option.isNone_iff_eq_none] at hcurrent
    simp [deprecations, hcurrent]
  rw [summaryDeprecations, hnone]
  rfl

theorem deprecationPlace_silent : deprecationPlace d doc = silent := by
  obtain ⟨line, extended, hsummary, hdeprecations⟩ := h.summaryDeprecations_eq hs
  unfold deprecationPlace
  rw [hsummary]
  dsimp only
  rw [hdeprecations]
  cases hmarker : offsetOf? deprecationMarker extended.text with
  | none => simp [deprecations, hmarker]
  | some k =>
      have hplace : (Span.ofLength (extended.column k) deprecationMarker.length).start.line =
          extended.position.line := rfl
      simp [deprecations, hmarker, hplace, deprecationLine]

theorem repeatedDeprecation_silent : repeatedDeprecation d doc = silent := by
  obtain ⟨line, extended, hsummary, hdeprecations⟩ := h.summaryDeprecations_eq hs
  have hlength : (deprecations [extended]).length < 2 :=
    Nat.lt_succ_of_le (List.length_filterMap_le _ [extended])
  unfold repeatedDeprecation
  rw [hsummary]
  dsimp only
  rw [hdeprecations, if_pos hlength]

theorem summaryCapital_silent : summaryCapital d doc = silent := by
  obtain ⟨line, hlines, hline, -⟩ := h.summaryLines_eq
  obtain ⟨c, r, hcons⟩ := List.exists_cons_of_ne_nil hs.summary.ne_nil
  have hstart : stripStart line.text = c :: r := by
    rw [hline, stripStart_spaces_append, stripStart_eq_self hs.summary.strip_eq, hcons]
  have hc : isLower c = false := by
    have hcapital := hs.summary.capital
    rw [hcons] at hcapital
    exact hcapital
  unfold summaryCapital
  rw [hlines]
  dsimp only
  rw [hstart]
  dsimp only
  rw [hc, if_neg Bool.false_ne_true]

theorem summaryPeriod_silent : summaryPeriod d doc = silent := by
  obtain ⟨line, hlines, hline, -⟩ := h.summaryLines_eq
  have hperiod : endsWith (stripEnd line.text) (ascii ".") = true := by
    rw [hline, stripEnd_append_of_not_blank _ hs.summary.not_blank,
      stripEnd_eq_self hs.summary.strip_eq]
    refine endsWith_singleton_iff.2 ?_
    rw [List.getLast?_append, hs.summary.period]
    rfl
  unfold summaryPeriod
  rw [hlines]
  dsimp only [List.getLast?_singleton]
  rw [if_pos hperiod]

theorem summaryIndent_silent : summaryIndent d doc = silent := by
  obtain ⟨line, hlines, hline, hindex⟩ := h.summaryLines_eq
  have hleading : line.leading = doc.expectedIndent (lineIndex doc line) := by
    rw [Docstring.expectedIndent, if_neg hindex, h.indent_eq, DocLine.leading, hline,
      leading_spaces_append, leading_eq_zero hs.summary.strip_eq, Nat.add_zero]
  have hopened : ¬doc.lines.isEmpty = true := by
    intro hempty
    -- Without lines, the summary would stand on the first one.
    rw [List.isEmpty_iff] at hempty
    exact hindex (by rw [lineIndex, hempty])
  unfold summaryIndent
  rw [hlines]
  dsimp only
  rw [if_neg hopened, if_pos hleading]

theorem summaryVerb_silent : summaryVerb d doc = silent := by
  obtain ⟨line, hlines, hline, -⟩ := h.summaryLines_eq
  have hstart : stripStart line.text = t.summary := by
    rw [hline, stripStart_spaces_append, stripStart_eq_self hs.summary.strip_eq]
  rw [summaryVerb_eq, hlines]
  dsimp only
  rw [hstart, hs.summary_verb, Bool.and_false, if_neg Bool.false_ne_true]

end Summary

end IsRead

end CanonicalText

end DocLint
