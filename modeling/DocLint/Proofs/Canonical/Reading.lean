import DocLint.Proofs.Canonical.Layout
import DocLint.Proofs.Canonical.Summary
import DocLint.Proofs.Docstring.Literal

/-!
# Reading canonical docstrings

A canonical docstring is read as it was written: its summary, its extended summary and its sections
are found again, and the reading has no flaws.

* `SectionLines.Holds`: some lines of a docstring hold a section that was written.
* `CanonicalText.IsRead`: what a reading of a canonical text consists of.
* `isRead_ofLiteral`: the literal is read in this way, without flaws.
-/

namespace DocLint

open Bytes

/-! ### Sections -/

/-- The lines hold the section with a blank line at its end. -/
structure SectionLines.Holds (c : SectionLines) (indent : Nat) (s : Bytes × List Bytes) :
    Prop where
  header : c.header.text = spaces indent ++ s.1
  underline : c.underline.text = spaces indent ++ List.replicate s.1.length (byte '-')
  body : ∃ front last, c.body = front ++ [last] ∧ front.map DocLine.text = s.2 ∧
    last.isBlank = true

namespace CanonicalText

variable {indent : Nat} {lines : List DocLine}

/-- The lines of a section and the blank line below it. -/
theorem exists_holds {s : Bytes × List Bytes} {blank : Bytes} {rest : List Bytes}
    (h : lines.map DocLine.text = sectionLines indent s ++ blank :: rest)
    (hblank : isBlank blank = true) :
    ∃ c below, lines = SectionLines.lines c ++ below ∧ c.Holds indent s ∧
      below.map DocLine.text = rest := by
  rw [sectionLines, List.cons_append, List.cons_append] at h
  obtain ⟨header, _, rfl, hheader, h⟩ := List.map_eq_cons_iff.1 h
  obtain ⟨underline, _, rfl, hunderline, h⟩ := List.map_eq_cons_iff.1 h
  obtain ⟨front, _, rfl, hfront, h⟩ := List.map_eq_append_iff.1 h
  obtain ⟨last, below, rfl, hlast, hbelow⟩ := List.map_eq_cons_iff.1 h
  refine ⟨⟨header, underline, front ++ [last]⟩, below, ?_, ⟨hheader, hunderline, ?_⟩, hbelow⟩
  · simp [SectionLines.lines]
  · exact ⟨front, last, rfl, hfront, by rw [DocLine.isBlank, hlast, hblank]⟩

/-- The lines of a stack of sections hold them one by one. -/
theorem exists_forall_holds {sections : List (Bytes × List Bytes)} {gap closing : Bytes}
    (hgap : isBlank gap = true) (hclosing : isBlank closing = true)
    (h : lines.map DocLine.text = stack gap closing (sections.map (sectionLines indent))) :
    ∃ chunks : List SectionLines, lines = chunks.flatMap SectionLines.lines ∧
      List.Forall₂ (fun c s => c.Holds indent s) chunks sections := by
  induction sections generalizing lines with
  | nil =>
      rw [List.map_nil, stack, List.map_eq_nil_iff] at h
      exact ⟨[], h, .nil⟩
  | cons s rest ih =>
      cases rest with
      | nil =>
          obtain ⟨c, below, rfl, hc, hbelow⟩ := exists_holds h hclosing
          rw [List.map_eq_nil_iff] at hbelow
          exact ⟨[c], by simp [hbelow], .cons hc .nil⟩
      | cons s' rest =>
          obtain ⟨c, below, rfl, hc, hbelow⟩ := exists_holds h hgap
          obtain ⟨chunks, rfl, hchunks⟩ := ih hbelow
          exact ⟨c :: chunks, by simp, .cons hc hchunks⟩

theorem strip_of_mem_sectionNames : ∀ name ∈ sectionNames, strip name = name := by
  decide

theorem ne_seeAlso_of_mem_sectionNames : ∀ name ∈ sectionNames, name ≠ SectionName.seeAlso := by
  decide

theorem isUnderline_of_mem_sectionNames : ∀ name ∈ sectionNames,
    isUnderline (List.replicate name.length (byte '-')) = true ∧
      strip (List.replicate name.length (byte '-')) = List.replicate name.length (byte '-') := by
  decide

end CanonicalText

namespace SectionLines.Holds

open CanonicalText

variable {c : SectionLines} {indent : Nat} {s : Bytes × List Bytes}

theorem name_eq (h : c.Holds indent s) (hname : s.1 ∈ sectionNames) : c.name = s.1 := by
  rw [name, h.header, strip_spaces_append, strip_of_mem_sectionNames _ hname]

/-- A section whose lines can stand inside one is separated from the others. -/
theorem separated (h : c.Holds indent s) (hname : s.1 ∈ sectionNames)
    (hbody : ∀ line ∈ s.2, IsBodyLine line) : c.Separated := by
  obtain ⟨front, last, hfront, htexts, hlast⟩ := h.body
  obtain ⟨hunderline, hstrip⟩ := isUnderline_of_mem_sectionNames _ hname
  have hline := (isName_of_mem_sectionNames _ hname).isBodyLine
  have hc := h.name_eq hname
  have hunder : strip c.underline.text = List.replicate s.1.length (byte '-') := by
    rw [h.underline, strip_spaces_append, hstrip]
  refine ⟨?_, ⟨?_, ?_⟩, ?_, ?_, ?_, ?_, ?_⟩
  · rw [hc]
    exact (isName_of_mem_sectionNames _ hname).1
  · rw [hc, ← strip_of_mem_sectionNames _ hname, hline.index_free]
  · rw [hc, ← strip_of_mem_sectionNames _ hname, hline.no_underline]
  · rw [hc]
    exact ne_seeAlso_of_mem_sectionNames _ hname
  · rw [hunder, hunderline]
  · rw [hunder, hc, List.length_replicate]
  · intro l hl
    rw [hfront, List.mem_append, List.mem_singleton] at hl
    rcases hl with hl | rfl
    · have htext : l.text ∈ s.2 := htexts ▸ List.mem_map_of_mem hl
      exact ⟨(hbody _ htext).index_free, (hbody _ htext).no_underline⟩
    · rw [strip_eq_nil_of_isBlank hlast]
      exact ⟨rfl, rfl⟩
  · exact ⟨last, by rw [hfront, List.getLast?_concat]; rfl, hlast⟩

end SectionLines.Holds

/-! ### The docstring -/

namespace CanonicalText

/-- The docstring is what the text says. -/
structure IsRead (t : CanonicalText) (indent blank : Nat) (doc : Docstring) : Prop where
  texts : doc.lines.map DocLine.text = t.lines indent blank
  indent_eq : doc.indent.toNat = indent
  summary : ∃ line extended, doc.summary = some ⟨[line], some [extended]⟩ ∧
    line.text = spaces indent ++ t.summary ∧ extended.text = spaces indent ++ t.extended ∧
      Check.lineIndex doc line ≠ 0
  sections : ∃ chunks : List SectionLines,
    doc.sections = chunks.map (SectionLines.toSection indent) ∧
      List.Forall₂ (fun c s => c.Holds indent s) chunks (t.sections indent)

variable {t : CanonicalText}

/-- The sections of a sound text are separated from each other. -/
theorem separated_of_holds (h : t.Sound) {indent : Nat} {chunks : List SectionLines}
    {sections : List (Bytes × List Bytes)} (hsections : sections ⊆ t.sections indent)
    (hchunks : List.Forall₂ (fun c s => c.Holds indent s) chunks sections) :
    ∀ c ∈ chunks, c.Separated := by
  induction hchunks with
  | nil => simp
  | cons hc _ ih =>
      rw [List.cons_subset] at hsections
      obtain ⟨hname, hbody⟩ := h.mem_sections hsections.1
      intro c hmem
      rcases List.mem_cons.1 hmem with rfl | hmem
      · exact hc.separated hname hbody
      · exact ih hsections.2 c hmem

theorem sections_ne_nil (t : CanonicalText) (indent : Nat) : t.sections indent ≠ [] := by
  simp [sections]

/-- The lines up to the first section. -/
theorem lines_eq (t : CanonicalText) (indent blank : Nat) :
    t.lines indent blank = [] :: (spaces indent ++ t.summary) :: spaces blank ::
      (spaces indent ++ t.extended) :: spaces blank ::
        stack (spaces blank) (spaces indent) ((t.sections indent).map (sectionLines indent)) := by
  unfold lines blocks
  obtain ⟨s, rest, hsections⟩ := List.exists_cons_of_ne_nil (t.sections_ne_nil indent)
  rw [hsections]
  rfl

/-- The literal as it is taken apart. -/
theorem isWritten_literal (t : CanonicalText) {mark : Bytes} {quote : UInt8}
    (hmark : ∀ c ∈ mark, isQuote c = false ∧ c ≠ newline) (hquote : isQuote quote = true)
    (indent blank : Nat) :
    IsWritten (t.literal mark quote indent blank) mark [quote, quote, quote]
      (join [newline] (t.lines indent blank)) :=
  ⟨rfl, hmark, quote, hquote, .inl rfl⟩

/-- The summary of a sound text is read from the lines that hold it. -/
theorem read_of_sound (h : t.Sound) {indent blank : Nat}
    {opening line below extended last : DocLine} {rest : List DocLine}
    (hopening : opening.text = []) (hline : line.text = spaces indent ++ t.summary)
    (hbelow : below.text = spaces blank) (hextended : extended.text = spaces indent ++ t.extended)
    (hlast : last.text = spaces blank) (hrest : isBoundary rest = true) :
    DocSummary.read { rest := opening :: line :: below :: extended :: last :: rest } =
      (some ⟨[line], some [extended]⟩, ⟨[last, extended, below, line, opening], rest⟩) := by
  have hsentence := h.summary
  have hstrip : strip line.text = t.summary := by
    rw [hline, strip_spaces_append, hsentence.strip_eq]
  have hstrip' : strip extended.text = t.extended := by
    rw [hextended, strip_spaces_append, h.extended.strip_eq]
  refine DocSummary.read_of_lines ?_ ?_ ?_ ⟨?_, ?_⟩ ⟨?_, ?_⟩ ⟨?_, ?_⟩ hrest
  · rw [DocLine.isBlank, hopening]
    rfl
  · rw [DocLine.isBlank, hbelow, isBlank_spaces]
  · rw [DocLine.isBlank, hlast, isBlank_spaces]
  · rw [DocLine.isBlank, hline, isBlank_spaces_append, hsentence.not_blank]
  · rw [hstrip, hsentence.index_free]
  · rw [hstrip, hsentence.strip_eq]
  · rw [hstrip, hsentence.period]
  · rw [DocLine.isBlank, hextended, isBlank_spaces_append, h.extended.not_blank]
  · rw [hstrip', h.extended.index_free]

/-- A literal with the lines of a sound text is read as they were written, and without flaws. -/
theorem isRead_of_lines (h : t.Sound) {literal : DocLiteral} {indent blank : Nat}
    (hindent : literal.indent.toNat = indent)
    (hbody : Bytes.lines literal.body = t.lines indent blank) :
    (Docstring.ofLiteral literal).2 = [] ∧
      t.IsRead indent blank (Docstring.ofLiteral literal).1 := by
  have htexts := literal.map_text_lines.trans (hbody.trans (t.lines_eq indent blank))
  obtain ⟨opening, _, hlines, hopening, htail⟩ := List.map_eq_cons_iff.1 htexts
  obtain ⟨line, _, rfl, hline, htail⟩ := List.map_eq_cons_iff.1 htail
  obtain ⟨below, _, rfl, hbelow, htail⟩ := List.map_eq_cons_iff.1 htail
  obtain ⟨extended, _, rfl, hextended, htail⟩ := List.map_eq_cons_iff.1 htail
  obtain ⟨last, rest, rfl, hlast, hrest⟩ := List.map_eq_cons_iff.1 htail
  obtain ⟨chunks, rfl, hchunks⟩ :=
    exists_forall_holds (isBlank_spaces blank) (isBlank_spaces indent) hrest
  have hseparated := separated_of_holds h (List.Subset.refl _) hchunks
  have hboundary : isBoundary (chunks.flatMap SectionLines.lines) = true := by
    cases chunks with
    | nil => exact absurd (List.forall₂_nil_left_iff.1 hchunks) (t.sections_ne_nil indent)
    | cons c more => exact (hseparated c List.mem_cons_self).isBoundary_append _
  have hread := read_of_sound h hopening hline hbelow hextended hlast hboundary
  have hsections : Docstring.readSections indent
      ⟨[last, extended, below, line, opening], chunks.flatMap SectionLines.lines⟩ =
        (chunks.map (SectionLines.toSection indent), []) := by
    -- The first section stands below the blank line behind the extended summary.
    refine readSections_eq_map hseparated indent rfl fun l hl => ?_
    cases hl
    rw [DocLine.isBlank, hlast, isBlank_spaces]
  have hdoc : Docstring.ofLiteral literal =
      ({ lines := literal.lines, start := literal.start, stop := literal.stop,
         indent := literal.indent, summary := some ⟨[line], some [extended]⟩,
         sections := chunks.map (SectionLines.toSection indent) }, []) := by
    unfold Docstring.ofLiteral
    simp only [hlines, hread, hindent, hsections]
  have hindex : (line.position.line - opening.position.line).toNat ≠ 0 := by
    rw [DocLiteral.line_sub_of_lines hlines]
    decide
  rw [hdoc]
  refine ⟨rfl, literal.map_text_lines.trans hbody, hindent, ?_, chunks, rfl, hchunks⟩
  refine ⟨line, extended, rfl, hline, hextended, ?_⟩
  unfold Check.lineIndex
  simp only [hlines]
  exact hindex

/-- A canonical literal is read as it was written, and without flaws. -/
theorem isRead_ofLiteral (h : t.Sound) {mark : Bytes} {quote : UInt8}
    (hmark : ∀ c ∈ mark, isQuote c = false ∧ c ≠ newline) (hquote : isQuote quote = true)
    {indent : Nat} (blank : Nat) {start : Position} (hstart : start.column.toNat = indent + 1) :
    (Docstring.ofLiteral (.ofText (t.literal mark quote indent blank) start)).2 = [] ∧
      t.IsRead indent blank
        (Docstring.ofLiteral (.ofText (t.literal mark quote indent blank) start)).1 := by
  have hwritten := t.isWritten_literal hmark hquote indent blank
  have hindent : (start.column - 1).toNat = indent := by
    rw [UInt32.toNat_sub]
    have hlt := start.column.toNat_lt
    simp only [UInt32.toNat_one]
    omega
  rw [hwritten.ofText_eq start]
  refine isRead_of_lines h hindent (lines_join (by simp [lines]) fun line hline => ?_)
  exact (h.isTidy_of_mem_lines indent blank hline).one_line

end CanonicalText

end DocLint
