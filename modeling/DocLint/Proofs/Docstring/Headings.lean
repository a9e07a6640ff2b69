import DocLint.Proofs.Docstring.Segmentation
import Mathlib.Order.Fin.Basic

/-!
# Headings

A heading is a line that is recognised as the header of a section: a boundary that is no index
directive.  What begins there ends in front of the next boundary.  The underline is such a boundary
itself where another underline stands below it; the heading is then left alone, and the lines that it
announces are lost or read under another name.

* `headsSection_iff`: a section begins at a heading whose underline is no heading.
* `ofLiteral_headings`: which headings have a section, and that they have no more than one.
* `sections_underlinedTwice`: a heading without a section.
-/

namespace DocLint

open Bytes

/-- Line `i` is recognised as a header: it is a section boundary and no index directive. -/
def HeadingAt (lines : List DocLine) (i : Nat) : Prop :=
  BoundaryAt lines i ∧ ∀ line ∈ lines[i]?, startsWith (strip line.text) indexDirective = false

instance (lines : List DocLine) (i : Nat) : Decidable (BoundaryAt lines i) :=
  inferInstanceAs (Decidable (_ = _))

instance (lines : List DocLine) (i : Nat) : Decidable (HeadingAt lines i) :=
  inferInstanceAs (Decidable (_ ∧ _))

/-- An underline is no index directive. -/
theorem startsWith_of_isUnderline {s : Bytes} (h : isUnderline s = true) :
    startsWith s indexDirective = false := by
  obtain ⟨c, n, hmark, rfl⟩ := (isUnderline_iff s).1 h
  rw [List.replicate_succ]
  refine startsWith_cons_of_ne ?_ _ _
  rcases hmark with rfl | rfl <;> decide

section Lines

variable {lines : List DocLine} {i : Nat}

/-- Below a heading stands an underline. -/
theorem HeadingAt.exists_underline (h : HeadingAt lines i) :
    ∃ underline, lines[i + 1]? = some underline ∧ isUnderline (strip underline.text) = true := by
  obtain ⟨hboundary, hindex⟩ := h
  rw [BoundaryAt] at hboundary
  cases hline : lines[i]? with
  | none =>
      rw [List.getElem?_eq_none_iff] at hline
      rw [List.drop_eq_nil_of_le hline] at hboundary
      cases hboundary
  | some line =>
      rw [drop_eq_cons hline] at hboundary
      obtain ⟨underline, hunderline, hmarked⟩ :=
        exists_underline_of_isBoundary hboundary (hindex line hline)
      rw [List.head?_drop] at hunderline
      exact ⟨underline, hunderline, hmarked⟩

/-- The line below a heading is a heading itself where it is a boundary. -/
theorem HeadingAt.below_iff (h : HeadingAt lines i) :
    HeadingAt lines (i + 1) ↔ BoundaryAt lines (i + 1) := by
  obtain ⟨underline, hunderline, hmarked⟩ := h.exists_underline
  refine ⟨And.left, fun hboundary => ⟨hboundary, fun line hline => ?_⟩⟩
  rw [hunderline] at hline
  cases hline
  exact startsWith_of_isUnderline hmarked

/-- A section begins at a heading whose underline is no heading. -/
theorem headsSection_iff :
    headsSection lines i = true ↔ HeadingAt lines i ∧ ¬ HeadingAt lines (i + 1) := by
  have hheads : headsSection lines i = true ↔ HeadingAt lines i ∧ ¬ BoundaryAt lines (i + 1) := by
    rw [headsSection, HeadingAt, BoundaryAt, BoundaryAt]
    cases lines[i]? <;> simp [and_right_comm]
  rw [hheads]
  exact and_congr_right fun h => not_congr h.below_iff.symm

theorem mem_headersFrom_iff :
    i ∈ headersFrom lines 0 ↔ HeadingAt lines i ∧ ¬ HeadingAt lines (i + 1) := by
  rw [headersFrom, List.mem_filter, headsSection_iff, List.mem_range'_1]
  refine ⟨And.right, fun h => ⟨⟨Nat.zero_le i, ?_⟩, h⟩⟩
  obtain ⟨underline, hunderline, -⟩ := h.1.exists_underline
  obtain ⟨hlt, -⟩ := List.getElem?_eq_some_iff.1 hunderline
  omega

/-- What begins at a heading is read as a section unless the underline is a heading itself. -/
theorem HeadingAt.ofLines_isSome_iff (h : HeadingAt lines i) {e : Nat} (ends : EndsAt lines i e)
    (indent : Nat) :
    (DocSection.ofLines (if 0 < i then lines[i - 1]? else none) indent
        (lines.extract i e)).isSome = true ↔ ¬ HeadingAt lines (i + 1) := by
  by_cases hheads : headsSection lines i = true
  · obtain ⟨s, flaws, hsome, -⟩ := ofLines_occupies ends h.1 indent hheads
    rw [hsome]
    exact iff_of_true rfl (headsSection_iff.1 hheads).2
  · rw [ofLines_eq_none ends h.1 _ indent (eq_false_of_ne_true hheads)]
    refine iff_of_false Bool.false_ne_true fun hbelow => hheads (headsSection_iff.2 ⟨h, hbelow⟩)

end Lines

namespace Docstring

/-- The sections stand at lines of their own, in order.  A heading, wherever it is, has exactly one of
them, and is not turned down as stray text, if and only if its underline is not underlined again. -/
theorem ofLiteral_headings (literal : DocLiteral) :
    let doc := (ofLiteral literal).1
    ∃ header : Fin doc.sections.length → Nat, StrictMono header ∧
      (∀ k, ∃ e, (doc.sections.get k).Occupies doc.lines doc.indent.toNat (header k) e) ∧
      ∀ i, HeadingAt doc.lines i →
        ((∃! k, header k = i) ↔ ¬ HeadingAt doc.lines (i + 1)) ∧
        ∀ e, EndsAt doc.lines i e →
          ((DocSection.ofLines (if 0 < i then doc.lines[i - 1]? else none) doc.indent.toNat
              (doc.lines.extract i e)).isSome = true ↔ ¬ HeadingAt doc.lines (i + 1)) := by
  dsimp only
  obtain ⟨hsections, -⟩ := ofLiteral_occupies literal
  obtain ⟨hlength, hoccupy⟩ := List.forall₂_iff_get.1 hsections
  have hsorted : (headersFrom literal.lines 0).Pairwise (· < ·) :=
    List.Pairwise.filter _ List.pairwise_lt_range'
  have hmono : StrictMono fun k : Fin (ofLiteral literal).1.sections.length =>
      (headersFrom literal.lines 0).get (k.cast hlength) :=
    fun k l hlt => List.pairwise_iff_get.1 hsorted _ _ hlt
  refine ⟨_, hmono, fun k => hoccupy k k.isLt (hlength ▸ k.isLt), fun i hi =>
    ⟨?_, fun e ends => hi.ofLines_isSome_iff ends _⟩⟩
  constructor
  · rintro ⟨k, rfl, -⟩
    exact (mem_headersFrom_iff.1 (List.get_mem _ _)).2
  · intro hbelow
    obtain ⟨k, hk⟩ := List.mem_iff_get.1 (mem_headersFrom_iff.2 ⟨hi, hbelow⟩)
    exact ⟨k.cast hlength.symm, hk, fun l hl => hmono.injective (hl.trans hk.symm)⟩

/-- The section that is announced here has no other underline than one which is underlined itself. -/
def underlinedTwice : DocLiteral := .ofText (ascii "'''Returns\n-------\n-------\nint'''") ⟨1, 1⟩

/-- A heading that is underlined twice has no section. -/
theorem sections_underlinedTwice :
    let doc := (ofLiteral underlinedTwice).1
    HeadingAt doc.lines 0 ∧ doc.lines[0]?.map DocLine.text = some SectionName.returns ∧
      ∀ s ∈ doc.sections, s.name.value ≠ SectionName.returns := by
  show HeadingAt underlinedTwice.lines 0 ∧
    underlinedTwice.lines[0]?.map DocLine.text = some SectionName.returns ∧ _
  refine ⟨by decide, by decide, ?_⟩
  -- The only section is that of the first underline.
  have hheaders : headersFrom underlinedTwice.lines 0 = [1] := by decide
  obtain ⟨hsections, -⟩ := ofLiteral_occupies underlinedTwice
  rw [hheaders, List.forall₂_cons_right_iff] at hsections
  obtain ⟨s, _, ⟨e, hoccupies⟩, hrest, hcons⟩ := hsections
  obtain ⟨line, hline, -, -, hname, -⟩ := hoccupies.header
  have hvalue : s.name.value = ascii "-------" := by
    have hread : underlinedTwice.lines[1]?.map DocLine.stripped =
        some ⟨ascii "-------", ⟨⟨2, 1⟩, ⟨2, 8⟩⟩⟩ := by decide
    rw [hline] at hread
    rw [hname, Option.some.inj hread]
  rw [hcons, List.forall₂_nil_right_iff.1 hrest]
  simp only [List.mem_singleton, forall_eq, hvalue]
  decide

end Docstring

end DocLint
