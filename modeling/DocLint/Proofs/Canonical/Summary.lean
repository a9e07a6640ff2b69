import DocLint.Proofs.Canonical.Sections
import DocLint.Proofs.Docstring.Signatures

/-!
# Reading a summary of one line

A summary of one line that ends with a period is no signature, and an extended summary of one line
ends at the blank line below it.

* `looksLikeSignature_of_period`: a sentence is no signature.
* `read_of_lines`: what is read are these two lines.
-/

namespace DocLint

open Bytes

/-! ### Sentences are no signatures -/

theorem looksLikeSignature_of_period {s : Bytes} (h : s.getLast? = some (byte '.')) :
    looksLikeSignature s = false := by
  refine eq_false_of_ne_true fun hlooks => ?_
  obtain ⟨x, rfl⟩ := SignatureParts.exists_of_looksLikeSignature hlooks
  rw [x.getLast?_text] at h
  exact absurd h (by decide)

/-! ### The lines -/

variable {line blank : DocLine} {rest : List DocLine}

/-- No section begins above a blank line. -/
theorem isBoundary_above_blank (hindex : startsWith (strip line.text) indexDirective = false)
    (hblank : blank.isBlank = true) : isBoundary (line :: blank :: rest) = false := by
  rw [isBoundary]
  simp [hindex, strip_eq_nil_of_isBlank hblank, isUnderline]

/-- No section begins at a blank line. -/
theorem isBoundary_of_blank (hblank : blank.isBlank = true) :
    isBoundary (blank :: rest) = false := by
  unfold isBoundary
  simp [strip_eq_nil_of_isBlank hblank]

theorem LineReader.skipBlank_of_blank {seen : List DocLine} (hblank : blank.isBlank = true)
    (hline : line.isBlank = false) :
    skipBlank ⟨seen, blank :: line :: rest⟩ = ⟨blank :: seen, line :: rest⟩ := by
  rw [skipBlank, readWhile, List.takeWhile_cons_of_pos hblank,
    List.takeWhile_cons_of_neg (by simp [hline])]
  rfl

theorem LineReader.readParagraph_of_line {seen : List DocLine}
    (hline : line.isBlank = false)
    (hindex : startsWith (strip line.text) indexDirective = false)
    (hblank : blank.isBlank = true) :
    readParagraph ⟨seen, line :: blank :: rest⟩ = ([line], ⟨line :: seen, blank :: rest⟩) := by
  have hlength : paragraphLength (line :: blank :: rest) = 1 := by
    rw [paragraphLength, hline, isBoundary_above_blank hindex hblank, Bool.or_false,
      if_neg Bool.false_ne_true, paragraphLength, hblank, Bool.true_or, if_pos rfl]
  rw [readParagraph, hlength]
  rfl

/-- A line and the blank line below it stand in front of the next boundary. -/
theorem LineReader.readUntilBoundary_of_line {seen : List DocLine} (hblank : blank.isBlank = true)
    (hrest : isBoundary rest = true) :
    readUntilBoundary ⟨seen, line :: blank :: rest⟩ =
      ([line, blank], ⟨blank :: line :: seen, rest⟩) := by
  have hzero : boundaryDistance rest = 0 := boundaryDistance_eq_zero (.inr hrest)
  have hlength : chunkLength (line :: blank :: rest) = 2 := by
    rw [chunkLength, boundaryDistance, isBoundary_of_blank hblank, if_neg Bool.false_ne_true, hzero]
  rw [readUntilBoundary, hlength]
  rfl

theorem LineReader.hasParagraph_of_line {seen : List DocLine}
    (hindex : startsWith (strip line.text) indexDirective = false)
    (hblank : blank.isBlank = true) :
    DocSummary.hasParagraph ⟨seen, line :: blank :: rest⟩ = true := by
  rw [DocSummary.hasParagraph, atBoundary, isBoundary_above_blank hindex hblank]
  rfl

/-- A summary of one line, which is a sentence, and an extended summary of one line are read. -/
theorem DocSummary.read_of_lines {opening line below extended last : DocLine}
    (hopening : opening.isBlank = true) (hbelow : below.isBlank = true)
    (hlast : last.isBlank = true)
    (hline : line.isBlank = false ∧ startsWith (strip line.text) indexDirective = false)
    (hsentence : strip (strip line.text) = strip line.text ∧
      (strip line.text).getLast? = some (byte '.'))
    (hextended : extended.isBlank = false ∧
      startsWith (strip extended.text) indexDirective = false)
    (hrest : isBoundary rest = true) :
    read { rest := opening :: line :: below :: extended :: last :: rest } =
      (some ⟨[line], some [extended]⟩, ⟨[last, extended, below, line, opening], rest⟩) := by
  have hflatten : Paragraph.flatten [line] = strip line.text := by
    rw [Paragraph.flatten, List.map_singleton, join, List.intercalate_singleton, hsentence.1]
  -- No signature is passed over.
  have hproper : readProper ⟨[opening], line :: below :: extended :: last :: rest⟩ =
      ([line], ⟨[line, opening], below :: extended :: last :: rest⟩) := by
    rw [readProper, LineReader.readParagraph_of_line hline.1 hline.2 hbelow]
    simp only [hflatten, looksLikeSignature_of_period hsentence.2, Bool.false_and,
      Bool.false_eq_true, if_false]
  -- The blank line in front of the first section is read, but not kept.
  have htrim : Paragraph.trim [extended, last] = [extended] := by
    simp [Paragraph.trim, List.dropWhile, hlast, hextended.1]
  have hread : readExtended ⟨[line, opening], below :: extended :: last :: rest⟩ =
      (some [extended], ⟨[last, extended, below, line, opening], rest⟩) := by
    rw [readExtended, LineReader.skipBlank_of_blank hbelow hextended.1,
      LineReader.hasParagraph_of_line hextended.2 hlast, if_pos rfl,
      LineReader.readUntilBoundary_of_line hlast hrest]
    simp only [htrim, List.isEmpty_cons, Bool.false_eq_true, if_false]
  rw [read, LineReader.skipBlank_of_blank hopening hline.1,
    LineReader.hasParagraph_of_line hline.2 hbelow, if_pos rfl, hproper]
  simp only [hread]

end DocLint
