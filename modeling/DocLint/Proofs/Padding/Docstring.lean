import DocLint.Proofs.Docstring.Content
import DocLint.Proofs.Padding.SeeAlso

/-!
# Padded docstrings

Padding behind the lines of a docstring is in the lines, in the spans that reach to their ends, and
nowhere else in what is read from them.

* `DocLine.unpadded`, `DocLine.keepsDescriptions_unpadded`: a line without its padding.
* `ParameterEntry.bare`, `DocSection.bare`, `Docstring.bare`: what is left without the padding and
  the spans that reach over it.
* `Docstring.ofLiteral_bare`: literals whose lines differ in padding only are read alike, with the
  same flaws.
-/

namespace DocLint

open Bytes

namespace DocLine

/-- The line without the padding behind it. -/
def unpadded (line : DocLine) : DocLine := { line with text := unpad line.text }

variable (line : DocLine)

theorem unpadded_unpadded : line.unpadded.unpadded = line.unpadded := by
  rw [unpadded, unpadded, unpad_unpad]

theorem map_unpadded_unpadded (lines : List DocLine) :
    (lines.map unpadded).map unpadded = lines.map unpadded := by
  rw [List.map_map]
  exact List.map_congr_left fun line _ => line.unpadded_unpadded

theorem keepsContent_unpadded : KeepsContent unpadded :=
  fun line => ignoresPadding_strip.unpad_eq line.text

@[simp] theorem isBlank_unpadded : line.unpadded.isBlank = line.isBlank :=
  ignoresPadding_isBlank.unpad_eq line.text

variable {line}

theorem leading_unpadded (h : line.isBlank = false) : line.unpadded.leading = line.leading :=
  leading_unpad h

theorem stripped_unpadded (h : line.isBlank = false) : line.unpadded.stripped = line.stripped := by
  rw [stripped, leading_unpadded h, keepsContent_unpadded line, stripped]
  rfl

theorem dedent_unpadded (h : line.isBlank = false) (indent : Nat) :
    line.unpadded.dedent indent = (line.dedent indent).unpadded := by
  rw [dedent, leading_unpadded h, dedent, drop, drop, unpadded, unpadded]
  exact congrArg _ (unpad_drop h (Nat.min_le_right _ _)).symm

/-- No version directive ends with padding. -/
theorem hasVersionDirective_unpadded (line : DocLine) :
    line.unpadded.hasVersionDirective = line.hasVersionDirective := by
  have hsolid : ∀ directive ∈ versionDirectives, directive ≠ [] ∧ EndsSolid directive := by decide
  unfold hasVersionDirective
  rw [Bool.eq_iff_iff, List.any_eq_true, List.any_eq_true]
  refine exists_congr fun directive => and_congr_right fun hdirective => ?_
  obtain ⟨hne, hend⟩ := hsolid directive hdirective
  rw [includes, includes, show line.unpadded.text = unpad line.text from rfl,
    (ignoresPadding_offsetOf? hne hend).unpad_eq]

theorem keepsDescriptions_unpadded : KeepsDescriptions unpadded where
  content := keepsContent_unpadded
  directive := hasVersionDirective_unpadded
  deeper := fun line line' hline hline' => by
    rw [leading_unpadded hline, leading_unpadded hline']

end DocLine

/-! ### Parameters -/

namespace ParameterEntry

/-- What stands in front of the first colon of a header has padding behind it where the header has
no colon, and else none. -/
theorem takeWhile_ne_colon_padding (s : Bytes) {w : Bytes} (hw : IsPadding w) :
    ∃ w', IsPadding w' ∧
      (s ++ w).takeWhile (· ≠ byte ':') = s.takeWhile (· ≠ byte ':') ++ w' := by
  have hplain : ∀ c ∈ w, decide (c ≠ byte ':') = true := fun c hc =>
    decide_eq_true fun heq => hw.not_mem (by decide) (heq ▸ hc)
  rw [List.takeWhile_append]
  split
  next hall =>
    refine ⟨w, hw, ?_⟩
    rw [List.takeWhile_eq_self_iff.2 hplain,
      List.takeWhile_eq_self_iff.2 (length_takeWhile_eq_iff.1 hall)]
  · exact ⟨[], by simp [IsPadding], by rw [List.append_nil]⟩

theorem ignoresPadding_headerName (p : Position) : IgnoresPadding fun s => headerName ⟨p, s⟩ := by
  intro s w hw
  obtain ⟨w', hw', hpart⟩ := takeWhile_ne_colon_padding s hw
  show headerName ⟨p, s ++ w⟩ = headerName ⟨p, s⟩
  unfold headerName
  simp only [hpart]
  generalize s.takeWhile (· ≠ byte ':') = part
  rw [ignoresPadding_strip part w' hw']
  split
  · rfl
  next hvalue =>
    rw [leading_append_padding (isBlank_eq_false_iff.2 (by simpa using hvalue))]
    rfl

theorem ignoresPadding_headerTypes (p : Position) : IgnoresPadding fun s => headerTypes ⟨p, s⟩ := by
  intro s w hw
  show headerTypes ⟨p, s ++ w⟩ = headerTypes ⟨p, s⟩
  by_cases hcolon : byte ':' ∈ s
  · have hlength : (s.takeWhile (· ≠ byte ':')).length < s.length := by
      refine Nat.lt_of_le_of_ne (List.takeWhile_prefix _).length_le fun heq => ?_
      exact absurd (length_takeWhile_eq_iff.1 heq _ hcolon) (by decide)
    have hbefore : (s ++ w).takeWhile (· ≠ byte ':') = s.takeWhile (· ≠ byte ':') := by
      rw [List.takeWhile_append, if_neg (Nat.ne_of_lt hlength)]
    unfold headerTypes
    simp only [hbefore]
    rw [List.drop_append_of_le_length hlength]
    generalize s.drop ((s.takeWhile (· ≠ byte ':')).length + 1) = part
    rw [ignoresPadding_strip part w hw]
    split
    · rfl
    next hvalue =>
      rw [leading_append_padding (isBlank_eq_false_iff.2 (by simpa using hvalue))]
      rfl
  · -- Without a colon there are no types, with or without padding.
    have hnone {t : Bytes} (ht : byte ':' ∉ t) : headerTypes ⟨p, t⟩ = none := by
      have hself : t.takeWhile (· ≠ byte ':') = t :=
        List.takeWhile_eq_self_iff.2 fun c hc => decide_eq_true fun heq => ht (heq ▸ hc)
      unfold headerTypes
      simp only [hself]
      rw [List.drop_of_length_le (Nat.le_succ _)]
      rfl
    have hcolon' : byte ':' ∉ s ++ w := by
      rw [List.mem_append, not_or]
      exact ⟨hcolon, hw.not_mem (by decide)⟩
    rw [hnone hcolon, hnone hcolon']

theorem ofHeader_unpadded (header : DocLine) (bareTypes : Bool) :
    ofHeader header.unpadded bareTypes =
      { ofHeader header bareTypes with header := header.unpadded } := by
  have hname : headerName header.unpadded = headerName header :=
    (ignoresPadding_headerName header.position).unpad_eq header.text
  have htypes : headerTypes header.unpadded = headerTypes header :=
    (ignoresPadding_headerTypes header.position).unpad_eq header.text
  unfold ofHeader
  rw [hname, htypes]
  dsimp only
  cases headerTypes header with
  | some list => rfl
  | none =>
      cases headerName header with
      | none => rfl
      | some name =>
          cases bareTypes with
          | true => rfl
          | false => rfl

/-- The entry without padding and without its span. -/
def bare (entry : ParameterEntry) : ParameterEntry :=
  { entry with
    header := entry.header.unpadded
    description := entry.description.map DocLine.unpadded
    span := {} }

theorem ofLines_unpadded {line : DocLine} (h : line.isBlank = false) (description : Paragraph)
    (indent : Nat) (bareTypes : Bool) :
    (ofLines line.unpadded (description.map DocLine.unpadded) indent bareTypes).bare =
      (ofLines line description indent bareTypes).bare := by
  have hheader (header : DocLine) : (ofHeader header bareTypes).header = header := by
    unfold ofHeader
    dsimp only
    split
    · rfl
    · split
      · rfl
      · rfl
    · rfl
  unfold ofLines
  rw [DocLine.dedent_unpadded h]
  simp only [bare, ofHeader_unpadded, DocLine.unpadded_unpadded, DocLine.map_unpadded_unpadded,
    hheader]

theorem describes_unpadded (indentation : Nat) (line : DocLine) :
    describes indentation line.unpadded = describes indentation line := by
  unfold describes
  rw [DocLine.isBlank_unpadded]
  cases h : line.isBlank with
  | true => rfl
  | false => rw [DocLine.leading_unpadded h]

/-- The entries of a body are the same ones without the padding. -/
theorem entries_unpadded (indent : Nat) (bareTypes : Bool) (body : List DocLine) :
    (entries indent bareTypes (body.map DocLine.unpadded)).map bare =
      (entries indent bareTypes body).map bare := by
  fun_induction entries indent bareTypes body with
  | case1 => simp [entries]
  | case2 line rest hblank ih =>
      rw [List.map_cons, entries, if_pos (by simpa using hblank), ih]
  | case3 line rest hblank ih =>
      have hreadable : line.isBlank = false := by simpa using hblank
      have hdescribes : describes line.leading ∘ DocLine.unpadded = describes line.leading :=
        funext fun l => describes_unpadded line.leading l
      rw [List.map_cons, entries, if_neg (by simpa using hblank),
        DocLine.leading_unpadded hreadable, List.takeWhile_map, List.dropWhile_map, hdescribes,
        List.map_cons,
        ofLines_unpadded hreadable, ih, List.map_cons]

end ParameterEntry

/-! ### Sections -/

namespace SectionContents

/-- The contents without padding and without the spans of entries. -/
def bare : SectionContents → SectionContents
  | parameters entries => .parameters (entries.map ParameterEntry.bare)
  | seeAlso entries => .seeAlso entries
  | text lines => .text (lines.map DocLine.unpadded)

/-- A line of a See Also section plays its role without its padding. -/
theorem map_ofLine_unpadded (indent : Nat) (body : List DocLine) :
    (body.map DocLine.unpadded).map (SeeAlsoRole.ofLine indent) =
      body.map (SeeAlsoRole.ofLine indent) := by
  rw [List.map_map]
  exact List.map_congr_left fun line _ =>
    (SeeAlsoRole.ignoresPadding_ofLine indent line.position).unpad_eq line.text

theorem ofBody_unpadded (name : Bytes) (indent : Nat) (body : List DocLine) :
    (ofBody name indent (body.map DocLine.unpadded)).bare = (ofBody name indent body).bare := by
  unfold ofBody
  rw [SeeAlsoEntry.entries, map_ofLine_unpadded, trim_map DocLine.keepsContent_unpadded]
  split
  · exact congrArg parameters (ParameterEntry.entries_unpadded indent false body)
  · split
    · exact congrArg parameters (ParameterEntry.entries_unpadded indent true body)
    · split
      · rfl
      · exact congrArg text (DocLine.map_unpadded_unpadded _)

theorem flaws_unpadded (name : Bytes) (indent : Nat) (body : List DocLine) :
    flaws name indent (body.map DocLine.unpadded) = flaws name indent body := by
  unfold flaws SeeAlsoEntry.flaws
  rw [← List.flatMap_map, ← List.flatMap_map (l := body), map_ofLine_unpadded]

end SectionContents

namespace DocSection

/-- The section without padding and without its span. -/
def bare (s : DocSection) : DocSection := { s with contents := s.contents.bare, span := {} }

theorem ofLines_unpadded (above : Option DocLine) (indent : Nat) {header : DocLine}
    (h : header.isBlank = false) (body : List DocLine) :
    (ofLines (above.map DocLine.unpadded) indent
        (header.unpadded :: body.map DocLine.unpadded)).map (Prod.map bare (List.map id)) =
      (ofLines above indent (header :: body)).map (Prod.map bare (List.map id)) := by
  have hcrowded : ((above.map DocLine.unpadded).any fun l => !l.isBlank) =
      above.any fun l => !l.isBlank := by
    cases above with
    | none => rfl
    | some l => exact congrArg not l.isBlank_unpadded
  cases body with
  | nil => rfl
  | cons line rest =>
      have hvalue : line.unpadded.stripped.value = line.stripped.value :=
        DocLine.keepsContent_unpadded line
      simp only [List.map_cons, ofLines, DocLine.stripped_unpadded h, hvalue, hcrowded]
      split
      · rfl
      next hunderline =>
        -- An underline has at least one byte.
        have hline : line.isBlank = false := isBlank_eq_false_iff.2 fun hempty => by
          rw [show line.stripped.value = [] from hempty] at hunderline
          simp [isUnderline] at hunderline
        simp only [Option.map_some, Prod.map, bare, SectionContents.ofBody_unpadded,
          SectionContents.flaws_unpadded, DocLine.stripped_unpadded hline]

end DocSection

/-! ### Literals -/

namespace Docstring

/-- The docstring without padding, without the spans of its entries and sections, and without the
position just after it. -/
def bare (doc : Docstring) : Docstring where
  lines := doc.lines.map DocLine.unpadded
  start := doc.start
  stop := doc.start
  indent := doc.indent
  summary := doc.summary.map (DocSummary.map DocLine.unpadded)
  sections := doc.sections.map DocSection.bare

theorem readSections_unpadded (indent : Nat) (r : LineReader) :
    (readSections indent (r.map DocLine.unpadded)).1.map DocSection.bare =
        (readSections indent r).1.map DocSection.bare ∧
      (readSections indent (r.map DocLine.unpadded)).2 = (readSections indent r).2 := by
  have hread := readSections_map DocLine.keepsContent_unpadded DocSection.bare DocSection.bare id id
    r fun above header body hheader _ =>
      DocSection.ofLines_unpadded above indent hheader body
  rwa [List.map_id, List.map_id] at hread

/-- Literals at the same place whose lines differ in padding only are read alike. -/
theorem ofLiteral_bare {literal literal' : DocLiteral} (hstart : literal'.start = literal.start)
    (hindent : literal'.indent = literal.indent)
    (hlines : literal'.lines.map DocLine.unpadded = literal.lines.map DocLine.unpadded) :
    (ofLiteral literal').1.bare = (ofLiteral literal).1.bare ∧
      (ofLiteral literal').2 = (ofLiteral literal).2 := by
  have hreader : LineReader.map DocLine.unpadded { rest := literal'.lines } =
      LineReader.map DocLine.unpadded { rest := literal.lines } :=
    congrArg (LineReader.mk []) hlines
  have hread := congrArg DocSummary.read hreader
  rw [DocSummary.read_map DocLine.keepsContent_unpadded,
    DocSummary.read_map DocLine.keepsContent_unpadded, Prod.mk.injEq] at hread
  obtain ⟨hsummary, hbehind⟩ := hread
  have hsections' := readSections_unpadded literal.indent.toNat
    (DocSummary.read { rest := literal'.lines }).2
  have hsections := readSections_unpadded literal.indent.toNat
    (DocSummary.read { rest := literal.lines }).2
  rw [hbehind] at hsections'
  unfold ofLiteral
  dsimp only
  rw [hindent]
  refine ⟨?_, hsections'.2.symm.trans hsections.2⟩
  simp only [bare, hstart, hlines, hsummary, ← hsections'.1, hsections.1]

end Docstring

end DocLint
