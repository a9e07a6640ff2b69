import DocLint.Proofs.Docstring.Sections
import DocLint.Proofs.Text.Edges

/-!
# Reading well-separated sections

Sections that each end with a blank line, and hold neither a directive that begins a section nor
anything that looks like an underline, are read one by one, without flaws.

* `boundaryDistance_append`: there is no boundary among such lines.
* `readSections_eq_map`: what is read are the sections that were written.
-/

namespace DocLint

open Bytes

theorem indexDirective_eq_cons : ∃ t, indexDirective = byte '.' :: t := ⟨_, rfl⟩

theorem boundaryDistance_eq_zero {lines : List DocLine}
    (h : lines = [] ∨ isBoundary lines = true) : boundaryDistance lines = 0 := by
  cases lines with
  | nil => rfl
  | cons line rest =>
      rcases h with h | h
      · cases h
      · rw [boundaryDistance, if_pos h]

/-- There is no boundary among lines without directives and underlines. -/
theorem boundaryDistance_append {lines next : List DocLine}
    (hindex : ∀ l ∈ lines, startsWith (strip l.text) indexDirective = false)
    (hlines : ∀ l ∈ lines.tail, isUnderline (strip l.text) = false)
    (hnext : ∀ l ∈ next.head?, isUnderline (strip l.text) = false) :
    boundaryDistance (lines ++ next) = lines.length + boundaryDistance next := by
  induction lines with
  | nil => simp
  | cons line rest ih =>
      have hrest := ih (fun l hl => hindex l (List.mem_cons_of_mem line hl))
        (fun l hl => hlines l (List.mem_of_mem_tail hl))
      -- What stands below the line belongs to these lines, or is the first of the next ones.
      have hbelow : ∀ l ∈ (rest ++ next).head?, isUnderline (strip l.text) = false := by
        cases rest with
        | nil => exact hnext
        | cons first rest =>
            intro l hl
            cases hl
            exact hlines first List.mem_cons_self
      have hcalm : isBoundary (line :: (rest ++ next)) = false := by
        have hline := hindex line List.mem_cons_self
        unfold isBoundary
        cases hfollow : rest ++ next with
        | nil => simp [hline, isUnderline]
        | cons first more => simp [hline, hbelow first (by rw [hfollow]; rfl)]
      rw [List.cons_append, boundaryDistance, hcalm, if_neg Bool.false_ne_true, hrest,
        List.length_cons]
      omega

/-- The lines of a section. -/
structure SectionLines where
  header : DocLine
  underline : DocLine
  body : List DocLine

namespace SectionLines

/-- The lines from the header on. -/
def lines (s : SectionLines) : List DocLine := s.header :: s.underline :: s.body

/-- The name of the section. -/
def name (s : SectionLines) : Bytes := strip s.header.text

/-- The section as it is read. -/
def toSection (indent : Nat) (s : SectionLines) : DocSection where
  name := s.header.stripped
  validUnderline := true
  contents := .ofBody s.name indent s.body
  span := Paragraph.span s.lines

/-- The name has an underline of its length, no other line can be taken for a boundary, and the last
line is blank. -/
structure Separated (s : SectionLines) : Prop where
  name_ne_nil : s.name ≠ []
  name_calm : startsWith s.name indexDirective = false ∧ isUnderline s.name = false
  name_ne_seeAlso : s.name ≠ SectionName.seeAlso
  underlined : isUnderline (strip s.underline.text) = true
  underline_length : (strip s.underline.text).length = s.name.length
  body_calm : ∀ l ∈ s.body,
    startsWith (strip l.text) indexDirective = false ∧ isUnderline (strip l.text) = false
  last_blank : ∃ l ∈ s.body.getLast?, l.isBlank = true

/-- An underline is no directive. -/
theorem index_free_of_isUnderline {s : Bytes} (h : isUnderline s = true) :
    startsWith s indexDirective = false := by
  cases s with
  | nil => cases h
  | cons c r =>
      have hc : c ≠ byte '.' := by
        rintro rfl
        rw [isUnderline, Bool.and_eq_true] at h
        exact absurd h.1 (by decide)
      obtain ⟨t, ht⟩ := indexDirective_eq_cons
      rw [ht, startsWith_cons_of_ne hc]

namespace Separated

variable {s : SectionLines}

/-- The section is read without flaws below a blank line. -/
theorem ofLines_eq (h : s.Separated) {above : Option DocLine}
    (habove : ∀ l ∈ above, l.isBlank = true) (indent : Nat) :
    DocSection.ofLines above indent s.lines = some (s.toSection indent, []) := by
  have hcrowded : (above.any fun l => !l.isBlank) = false := by
    cases above with
    | none => rfl
    | some l => simp [habove l rfl]
  have hname : s.header.stripped.value = s.name := rfl
  have hunderline : s.underline.stripped.value = strip s.underline.text := rfl
  rw [lines, DocSection.ofLines]
  simp only [hname, hunderline, hcrowded, h.name_calm.1, h.underlined, h.underline_length,
    SectionContents.flaws, if_neg h.name_ne_seeAlso, Bool.not_true, Bool.or_self, beq_self_eq_true,
    Bool.false_eq_true, if_false, if_true, List.append_nil]
  rfl

theorem header_not_blank (h : s.Separated) : s.header.isBlank = false := by
  rw [← Bool.not_eq_true, DocLine.isBlank, ← strip_eq_nil_iff]
  exact h.name_ne_nil

/-- The section begins at a boundary. -/
theorem isBoundary_append (h : s.Separated) (next : List DocLine) :
    isBoundary (s.lines ++ next) = true := by
  have hname : strip s.header.text ≠ [] := h.name_ne_nil
  rw [lines, List.cons_append, List.cons_append, isBoundary]
  simp [hname, h.underlined]

/-- The next boundary stands behind the section. -/
theorem boundaryDistance_eq (h : s.Separated) {next : List DocLine}
    (hnext : next = [] ∨ isBoundary next = true)
    (hunder : ∀ l ∈ next.head?, isUnderline (strip l.text) = false) :
    boundaryDistance (s.underline :: (s.body ++ next)) = (s.underline :: s.body).length := by
  have hzero := boundaryDistance_eq_zero hnext
  have hcalm : ∀ l ∈ s.underline :: s.body, startsWith (strip l.text) indexDirective = false := by
    intro l hl
    rcases List.mem_cons.1 hl with rfl | hl
    · exact index_free_of_isUnderline h.underlined
    · exact (h.body_calm l hl).1
  rw [← List.cons_append, boundaryDistance_append hcalm (fun l hl => (h.body_calm l hl).2) hunder,
    hzero, Nat.add_zero]

end Separated

end SectionLines

/-- The lines of a section are read at once, up to the next section or the end. -/
theorem LineReader.readUntilBoundary_of_separated {s : SectionLines} (h : s.Separated)
    {next : List DocLine} (hnext : next = [] ∨ isBoundary next = true)
    (hunder : ∀ l ∈ next.head?, isUnderline (strip l.text) = false) {r : LineReader}
    (hrest : r.rest = s.lines ++ next) :
    r.readUntilBoundary.1 = s.lines ∧ r.readUntilBoundary.2.rest = next ∧
      ∀ l ∈ r.readUntilBoundary.2.previous, l.isBlank = true := by
  have hcons : r.rest = s.header :: (s.underline :: (s.body ++ next)) := hrest
  obtain ⟨hchunk, hbehind⟩ := readUntilBoundary_of_cons hcons
  rw [h.boundaryDistance_eq hnext hunder, ← List.cons_append] at hchunk hbehind
  rw [List.take_left] at hchunk
  rw [List.drop_left] at hbehind
  refine ⟨hchunk, hbehind, fun l hl => ?_⟩
  -- The line above what is left is the last one of the section.
  obtain ⟨last, hlast, hblank⟩ := h.last_blank
  have hseen : r.readUntilBoundary.2.previous =
      (r.readUntilBoundary.1.reverse ++ r.seen).head? := rfl
  have hlines : (s.header :: s.underline :: s.body).getLast? = some last := by
    rw [List.getLast?_cons_cons, List.getLast?_cons, Option.mem_def.1 hlast]
    rfl
  rw [hseen, hchunk, List.head?_append, List.head?_reverse, hlines] at hl
  cases hl
  exact hblank

/-- Sections begin at a boundary, and not with an underline. -/
theorem head_of_separated {sections : List SectionLines} (h : ∀ s ∈ sections, s.Separated) :
    (sections.flatMap SectionLines.lines = [] ∨
        isBoundary (sections.flatMap SectionLines.lines) = true) ∧
      ∀ l ∈ (sections.flatMap SectionLines.lines).head?,
        l.isBlank = false ∧ isUnderline (strip l.text) = false := by
  cases sections with
  | nil => exact ⟨.inl rfl, by simp⟩
  | cons s more =>
      have hs := h s List.mem_cons_self
      refine ⟨.inr (hs.isBoundary_append _), ?_⟩
      intro l hl
      cases hl
      exact ⟨hs.header_not_blank, hs.name_calm.2⟩

/-- Separated sections are read one by one, without flaws. -/
theorem readSections_eq_map {sections : List SectionLines} (h : ∀ s ∈ sections, s.Separated)
    (indent : Nat) {r : LineReader} (hrest : r.rest = sections.flatMap SectionLines.lines)
    (habove : ∀ l ∈ r.previous, l.isBlank = true) :
    Docstring.readSections indent r = (sections.map (SectionLines.toSection indent), []) := by
  -- The reader always stands below a blank line: this is what carries the induction.
  induction sections generalizing r with
  | nil =>
      refine Docstring.readSections_of_end ?_
      rw [LineReader.rest_skipBlank, hrest]
      rfl
  | cons s more ih =>
      have hs := h s List.mem_cons_self
      have hmore : ∀ s ∈ more, s.Separated := fun s' hs' => h s' (List.mem_cons_of_mem s hs')
      have hhead := (head_of_separated h).2
      rw [← hrest] at hhead
      have hskip : r.skipBlank = r := LineReader.skipBlank_eq_self fun l hl => (hhead l hl).1
      rw [List.flatMap_cons] at hrest
      obtain ⟨hnext, hunder⟩ := head_of_separated hmore
      obtain ⟨hchunk, hbehind, hprevious⟩ := LineReader.readUntilBoundary_of_separated hs hnext
        (fun l hl => (hunder l hl).2) hrest
      have hne : r.skipBlank.rest ≠ [] := by
        rw [hskip, hrest]
        simp [SectionLines.lines]
      have hsection : DocSection.ofLines r.skipBlank.previous indent
          r.skipBlank.readUntilBoundary.1 = some (s.toSection indent, []) := by
        rw [hskip, hchunk]
        exact hs.ofLines_eq habove indent
      rw [Docstring.readSections_of_some hne hsection, hskip, ih hmore hbehind hprevious]
      rfl

end DocLint
