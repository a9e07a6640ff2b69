import DocLint.Docstring.Basic
import DocLint.Docstring.Description
import DocLint.Proofs.Docstring.Sections
import DocLint.Proofs.Docstring.Summary
import DocLint.Proofs.Text.Edges

/-!
# What reading depends on

The summary of a docstring is found, and its sections are told apart, by the stripped texts of its
lines alone.  A change of the lines that leaves these texts as they are goes through the reading.
What the rules ask of a description depends on its version directives and on which of its lines are
indented deeper than others besides.

* `isBoundary_map`, `paragraphLength_map`, `boundaryDistance_map`: the marks stay where they are.
* `DocSummary.read_map`: the changed summary is read from the changed lines.
* `Docstring.readSections_map`: so are the sections, chunk by chunk.
* `KeepsDescriptions`: a change after which descriptions have the properties that they had.
-/

namespace DocLint

open Bytes

/-- The lines are changed, but not their stripped texts. -/
def KeepsContent (f : DocLine → DocLine) : Prop := ∀ line, strip (f line).text = strip line.text

section Marks

variable {f : DocLine → DocLine} (keeps : KeepsContent f)
include keeps

theorem isBlank_of_keepsContent (line : DocLine) : (f line).isBlank = line.isBlank := by
  rw [Bool.eq_iff_iff, DocLine.isBlank, ← strip_eq_nil_iff, keeps line, strip_eq_nil_iff,
    DocLine.isBlank]

theorem isBoundary_map (lines : List DocLine) : isBoundary (lines.map f) = isBoundary lines := by
  cases lines with
  | nil => rfl
  | cons header rest =>
      cases rest with
      | nil => simp only [List.map_cons, List.map_nil, isBoundary, keeps header]
      | cons next rest => simp only [List.map_cons, isBoundary, keeps header, keeps next]

theorem paragraphLength_map (lines : List DocLine) :
    paragraphLength (lines.map f) = paragraphLength lines := by
  induction lines with
  | nil => rfl
  | cons line rest ih =>
      have hboundary := isBoundary_map keeps (line :: rest)
      rw [List.map_cons] at hboundary
      rw [List.map_cons, paragraphLength, paragraphLength, hboundary,
        isBlank_of_keepsContent keeps, ih]

theorem boundaryDistance_map (lines : List DocLine) :
    boundaryDistance (lines.map f) = boundaryDistance lines := by
  induction lines with
  | nil => rfl
  | cons line rest ih =>
      have hboundary := isBoundary_map keeps (line :: rest)
      rw [List.map_cons] at hboundary
      rw [List.map_cons, boundaryDistance, boundaryDistance, hboundary, ih]

theorem chunkLength_map (lines : List DocLine) :
    chunkLength (lines.map f) = chunkLength lines := by
  cases lines with
  | nil => rfl
  | cons line rest => rw [List.map_cons, chunkLength, chunkLength, boundaryDistance_map keeps]

theorem takeWhile_isBlank_map (lines : List DocLine) :
    (lines.map f).takeWhile DocLine.isBlank = (lines.takeWhile DocLine.isBlank).map f := by
  rw [List.takeWhile_map]
  congr 1
  exact congrArg (List.takeWhile · lines) (funext (isBlank_of_keepsContent keeps))

theorem dropWhile_isBlank_map (lines : List DocLine) :
    (lines.map f).dropWhile DocLine.isBlank = (lines.dropWhile DocLine.isBlank).map f := by
  rw [List.dropWhile_map]
  congr 1
  exact congrArg (List.dropWhile · lines) (funext (isBlank_of_keepsContent keeps))

theorem trim_map (p : Paragraph) : Paragraph.trim (p.map f) = (Paragraph.trim p).map f := by
  rw [Paragraph.trim, ← List.map_reverse, dropWhile_isBlank_map keeps, ← List.map_reverse,
    dropWhile_isBlank_map keeps, Paragraph.trim]

theorem flatten_map (p : Paragraph) : Paragraph.flatten (p.map f) = Paragraph.flatten p := by
  rw [Paragraph.flatten, List.map_map, Paragraph.flatten]
  congr 2
  exact List.map_congr_left fun line _ => keeps line

end Marks

namespace LineReader

/-- The reader of the changed lines. -/
def map (f : DocLine → DocLine) (r : LineReader) : LineReader := ⟨r.seen.map f, r.rest.map f⟩

theorem take_map (f : DocLine → DocLine) (r : LineReader) (n : Nat) :
    (r.map f).take n = ((r.take n).1.map f, (r.take n).2.map f) := by
  simp [take, map, List.map_take, List.map_drop]

variable {f : DocLine → DocLine} (keeps : KeepsContent f)
include keeps

theorem skipBlank_map (r : LineReader) : (r.map f).skipBlank = r.skipBlank.map f := by
  simp only [skipBlank, readWhile, take_map]
  rw [show (r.map f).rest = r.rest.map f from rfl, takeWhile_isBlank_map keeps, List.length_map]

theorem readParagraph_map (r : LineReader) :
    (r.map f).readParagraph = (r.readParagraph.1.map f, r.readParagraph.2.map f) := by
  simp only [readParagraph, take_map]
  rw [show (r.map f).rest = r.rest.map f from rfl, paragraphLength_map keeps]

theorem readUntilBoundary_map (r : LineReader) :
    (r.map f).readUntilBoundary = (r.readUntilBoundary.1.map f, r.readUntilBoundary.2.map f) := by
  simp only [readUntilBoundary, take_map]
  rw [show (r.map f).rest = r.rest.map f from rfl, chunkLength_map keeps]

theorem hasParagraph_map (r : LineReader) :
    DocSummary.hasParagraph (r.map f) = DocSummary.hasParagraph r := by
  simp only [DocSummary.hasParagraph, atEnd, atBoundary, map, isBoundary_map keeps,
    List.isEmpty_map]

end LineReader

namespace DocSummary

/-- The summary with its lines changed. -/
def map (f : DocLine → DocLine) (s : DocSummary) : DocSummary :=
  ⟨s.summary.map f, s.extended.map fun p => p.map f⟩

variable {f : DocLine → DocLine} (keeps : KeepsContent f)
include keeps

theorem readProper_map (r : LineReader) :
    readProper (r.map f) = ((readProper r).1.map f, (readProper r).2.map f) := by
  fun_induction readProper r with
  | case1 r paragraph next hmore ih =>
      rw [readProper]
      simp only [LineReader.readParagraph_map keeps, LineReader.skipBlank_map keeps,
        LineReader.hasParagraph_map keeps, flatten_map keeps]
      rw [if_pos hmore, ih]
  | case2 r paragraph next hlast =>
      rw [readProper]
      simp only [LineReader.readParagraph_map keeps, LineReader.skipBlank_map keeps,
        LineReader.hasParagraph_map keeps, flatten_map keeps]
      rw [if_neg hlast]

theorem readExtended_map (r : LineReader) :
    readExtended (r.map f) =
      ((readExtended r).1.map fun p => p.map f, (readExtended r).2.map f) := by
  unfold readExtended
  simp only [LineReader.skipBlank_map keeps, LineReader.hasParagraph_map keeps,
    LineReader.readUntilBoundary_map keeps, trim_map keeps, List.isEmpty_map]
  split
  · split
    · rfl
    · rfl
  · rfl

/-- The changed summary is read from the changed lines. -/
theorem read_map (r : LineReader) :
    read (r.map f) = ((read r).1.map (map f), (read r).2.map f) := by
  unfold read
  simp only [LineReader.skipBlank_map keeps, LineReader.hasParagraph_map keeps,
    readProper_map keeps, readExtended_map keeps]
  split
  · rfl
  · rfl

end DocSummary

/-! ### Sections -/

namespace Docstring

section Rounds

variable {r : LineReader}

/-- Whatever stands behind the first line of a chunk, or of what is left behind it, stands behind
the first line of all. -/
theorem mem_tail_of_chunk {line : DocLine}
    (h : line ∈ r.skipBlank.readUntilBoundary.1.tail ∨
      line ∈ r.skipBlank.readUntilBoundary.2.rest.tail) : line ∈ r.rest.tail := by
  have hskip := DocSummary.rest_skipBlank_suffix r
  rcases h with h | h
  · refine mem_tail_of_suffix hskip ?_
    have hchunk : r.skipBlank.readUntilBoundary.1.Sublist r.skipBlank.rest :=
      (List.take_prefix _ _).sublist
    exact hchunk.tail.subset h
  · have hbehind : r.skipBlank.readUntilBoundary.2.rest <:+ r.skipBlank.rest :=
      List.drop_suffix _ _
    exact mem_tail_of_suffix (hbehind.trans hskip) h

/-- A chunk has at least one line. -/
theorem length_behind_chunk_lt (h : r.skipBlank.rest ≠ []) :
    r.skipBlank.readUntilBoundary.2.rest.length < r.rest.length := by
  obtain ⟨header, rest, hrest⟩ := List.exists_cons_of_ne_nil h
  have hle := LineReader.length_rest_skipBlank_le r
  rw [hrest, List.length_cons] at hle
  rw [(LineReader.readUntilBoundary_of_cons hrest).2, List.length_drop]
  omega

/-- A chunk begins with a line that is not blank. -/
theorem chunk_eq_cons (h : r.skipBlank.rest ≠ []) :
    ∃ header body, r.skipBlank.readUntilBoundary.1 = header :: body ∧ header.isBlank = false := by
  obtain ⟨header, rest, hrest⟩ := List.exists_cons_of_ne_nil h
  refine ⟨header, _, (LineReader.readUntilBoundary_of_cons hrest).1, ?_⟩
  rw [LineReader.rest_skipBlank, drop_takeWhile_isBlank] at hrest
  exact head?_dropWhile_isBlank (by rw [hrest]; rfl)

end Rounds

/-- Sections are read from the changed lines chunk by chunk.  If every chunk, changed, is told as it
was before the change, with flaws that are told as they were, then so are all of them. -/
theorem readSections_map {α β : Type} {f : DocLine → DocLine} (keeps : KeepsContent f)
    {indent indent' : Nat} (tell tell' : DocSection → α) (tellFlaw tellFlaw' : Flaw → β)
    (r : LineReader)
    (h : ∀ above header body, header.isBlank = false → (∀ line ∈ body, line ∈ r.rest.tail) →
      (DocSection.ofLines (above.map f) indent' (f header :: body.map f)).map
          (Prod.map tell' (List.map tellFlaw')) =
        (DocSection.ofLines above indent (header :: body)).map
          (Prod.map tell (List.map tellFlaw))) :
    (readSections indent' (r.map f)).1.map tell' = (readSections indent r).1.map tell ∧
      (readSections indent' (r.map f)).2.map tellFlaw' =
        (readSections indent r).2.map tellFlaw := by
  have hskip := LineReader.skipBlank_map keeps r
  -- The induction is on the number of lines ahead: a round takes one of them at least.
  induction hlength : r.rest.length using Nat.strongRecOn generalizing r with
  | ind length ih =>
    by_cases hend : r.skipBlank.rest = []
    · have hend' : (r.map f).skipBlank.rest = [] := by
        rw [hskip, LineReader.map, hend]
        rfl
      rw [readSections_of_end hend, readSections_of_end hend']
      exact ⟨rfl, rfl⟩
    · have hmore' : (r.map f).skipBlank.rest ≠ [] := by
        rw [hskip, LineReader.map]
        simpa using hend
      obtain ⟨header, body, hchunk, hheader⟩ := chunk_eq_cons hend
      have hread : (r.map f).skipBlank.readUntilBoundary =
          (f header :: body.map f, r.skipBlank.readUntilBoundary.2.map f) := by
        rw [hskip, LineReader.readUntilBoundary_map keeps, hchunk, List.map_cons]
      have habove : (r.map f).skipBlank.previous = r.skipBlank.previous.map f := by
        rw [hskip]
        exact List.head?_map
      have hsection := h r.skipBlank.previous header body hheader fun line hline =>
        mem_tail_of_chunk (.inl (by rwa [hchunk]))
      have hbelow := ih _ (hlength ▸ length_behind_chunk_lt hend) r.skipBlank.readUntilBoundary.2
        (fun above header body hheader hbody => h above header body hheader fun line hline =>
          mem_tail_of_chunk (.inr (hbody line hline)))
        (LineReader.skipBlank_map keeps _) rfl
      rw [← hchunk] at hsection
      cases hfound : DocSection.ofLines r.skipBlank.previous indent
          r.skipBlank.readUntilBoundary.1 with
      | none =>
          rw [hfound, Option.map_none, Option.map_eq_none_iff, ← habove] at hsection
          rw [readSections_of_none hend hfound,
            readSections_of_none hmore' (by rw [hread]; exact hsection), hread]
          exact hbelow
      | some result =>
          rw [hfound, Option.map_some, Option.map_eq_some_iff, ← habove] at hsection
          obtain ⟨result', hfound', htold⟩ := hsection
          rw [readSections_of_some hend hfound,
            readSections_of_some hmore' (by rw [hread]; exact hfound'), hread]
          simp only [List.map_cons, List.map_append, hbelow.1, hbelow.2]
          exact ⟨congrArg₂ List.cons (congrArg Prod.fst htold) rfl,
            congrArg₂ (· ++ ·) (congrArg Prod.snd htold) rfl⟩

end Docstring

/-! ### Descriptions -/

/-- The lines are changed, but descriptions made of them keep the properties that rules ask for:
stripped texts and version directives stay, and so does what is indented deeper than what. -/
structure KeepsDescriptions (f : DocLine → DocLine) : Prop where
  content : KeepsContent f
  directive : ∀ line, (f line).hasVersionDirective = line.hasVersionDirective
  deeper : ∀ line line' : DocLine, line.isBlank = false → line'.isBlank = false →
    ((f line).leading < (f line').leading ↔ line.leading < line'.leading)

namespace Paragraph

variable {f : DocLine → DocLine}

theorem blankAbove_map (keeps : KeepsContent f) (p : Paragraph) :
    blankAbove (p.map f) = blankAbove p := by
  rw [blankAbove, takeWhile_isBlank_map keeps, List.length_map, blankAbove]

theorem blankBelow_map (keeps : KeepsContent f) (p : Paragraph) :
    blankBelow (p.map f) = blankBelow p := by
  rw [blankBelow, ← List.map_reverse, takeWhile_isBlank_map keeps, List.length_map, blankBelow]

theorem all_isBlank_map (keeps : KeepsContent f) (p : Paragraph) :
    (p.map f).all DocLine.isBlank = p.all DocLine.isBlank := by
  rw [List.all_map]
  exact congrArg p.all (funext (isBlank_of_keepsContent keeps))

variable (keeps : KeepsDescriptions f)
include keeps

theorem beforeDirective_map (p : Paragraph) :
    beforeDirective (p.map f) = (beforeDirective p).map f := by
  have hdirective : (fun line => !line.hasVersionDirective) ∘ f =
      fun line => !line.hasVersionDirective :=
    funext fun line => congrArg not (keeps.directive line)
  have hblank : (fun line : DocLine => !line.isBlank) ∘ f = fun line => !line.isBlank :=
    funext fun line => congrArg not (isBlank_of_keepsContent keeps.content line)
  rw [beforeDirective, List.takeWhile_map, hdirective, List.filter_map, hblank, beforeDirective]

theorem hasDescription_map (p : Paragraph) : hasDescription (p.map f) = hasDescription p := by
  rw [hasDescription, beforeDirective_map keeps, List.isEmpty_map, hasDescription]

theorem startsUppercase_map (p : Paragraph) : startsUppercase (p.map f) = startsUppercase p := by
  unfold startsUppercase
  rw [beforeDirective_map keeps]
  cases beforeDirective p with
  | nil => rfl
  | cons first rest =>
      have hfirst : (stripStart (f first).text).head? = (stripStart first.text).head? := by
        rw [← head?_strip, keeps.content first, head?_strip]
      simp only [List.map_cons]
      cases hbefore : stripStart first.text with
      | nil =>
          rw [hbefore] at hfirst
          rw [List.head?_eq_none_iff.1 hfirst]
      | cons c r =>
          rw [hbefore] at hfirst
          obtain ⟨r', hr'⟩ := List.head?_eq_some_iff.1 hfirst
          rw [hr']

theorem endsWithPeriod_map (p : Paragraph) : endsWithPeriod (p.map f) = endsWithPeriod p := by
  have hreadable {line : DocLine} (h : line ∈ beforeDirective p) : line.isBlank = false := by
    simpa using (List.mem_filter.1 h).2
  unfold endsWithPeriod
  rw [beforeDirective_map keeps, List.head?_map, List.getLast?_map]
  cases hfirst : (beforeDirective p).head? with
  | none => rfl
  | some first =>
      cases hlast : (beforeDirective p).getLast? with
      | none => rfl
      | some last =>
          have hdeeper := keeps.deeper first last (hreadable (List.mem_of_head? hfirst))
            (hreadable (List.mem_of_getLast? hlast))
          simp only [Option.map_some, keeps.content last, decide_eq_decide.2 hdeeper]

end Paragraph

end DocLint
