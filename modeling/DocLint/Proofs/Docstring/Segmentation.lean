import DocLint.Proofs.Docstring.Boundaries
import DocLint.Proofs.Docstring.ReferencePieces
import Mathlib.Data.List.Range
import Mathlib.Data.List.Forall2

/-!
# The sections of a docstring

A section begins at a boundary that is no index directive and whose underline is no boundary itself.
It takes up the lines up to the next boundary: the header, the underline and the body.

* `isUnderline_iff`: an underline is one mark, once or more.
* `ofLines_occupies`: what a chunk of lines makes up.
* `readSections_occupy`, `ofLiteral_occupies`: the sections that are read, one for each header, and
  their flaws.
* `ofLiteral_isSegmented`: the sections of a docstring take up disjoint stretches of its lines.
-/

namespace DocLint

open Bytes

/-- An underline is one mark, once or more. -/
theorem isUnderline_iff (s : Bytes) :
    isUnderline s = true ↔
      ∃ c n, (c = byte '-' ∨ c = byte '=') ∧ s = List.replicate (n + 1) c := by
  cases s with
  | nil => simp [isUnderline, List.replicate_succ]
  | cons c r =>
      simp only [isUnderline, Bool.and_eq_true, Bool.or_eq_true, beq_iff_eq, List.all_eq_true]
      constructor
      · rintro ⟨hc, hr⟩
        exact ⟨c, r.length, hc, by
          rw [List.replicate_succ, ← List.eq_replicate_of_mem hr]⟩
      · rintro ⟨d, n, hd, heq⟩
        rw [List.replicate_succ, List.cons.injEq] at heq
        obtain ⟨rfl, rfl⟩ := heq
        exact ⟨hd, fun x hx => List.eq_of_mem_replicate hx⟩

/-! ### Headers -/

/-- A section begins at line `h`: the line is a boundary but no index directive, and the line below
it is no boundary. -/
def headsSection (lines : List DocLine) (h : Nat) : Bool :=
  isBoundary (lines.drop h) && !isBoundary (lines.drop (h + 1)) &&
    !lines[h]?.any fun line => startsWith (strip line.text) indexDirective

/-- The lines from `a` on at which a section begins. -/
def headersFrom (lines : List DocLine) (a : Nat) : List Nat :=
  (List.range' a (lines.length - a)).filter (headsSection lines)

/-- The codes and the places of what is wrong with a header: the line above it is not blank, and the
underline has not its length. -/
def headerMarks (lines : List DocLine) (h : Nat) : List (Bytes × Span) :=
  match lines[h]?, lines[h + 1]? with
  | some header, some underline =>
    (if 0 < h ∧ lines[h - 1]?.any fun above => !above.isBlank then
      [(Code.gle02.name, header.stripped.span)] else []) ++
    (if (strip underline.text).length = (strip header.text).length then [] else
      [(Code.gle03.name, underline.stripped.span)])
  | _, _ => []

/-- The codes and the places of flaws, those of stray commas and periods left out. -/
def layoutMarks (flaws : List Flaw) : List (Bytes × Span) :=
  ((flaws.map Flaw.diagnostic).filter (·.code ≠ Code.sae01.name)).map fun d => (d.code, d.span)

/-- The section takes up the lines from `h` up to `e`: the header, the underline and the body. -/
structure DocSection.Occupies (lines : List DocLine) (indent : Nat) (s : DocSection)
    (h e : Nat) : Prop where
  endsAt : EndsAt lines h e
  room : h + 2 ≤ e
  header : ∃ line, lines[h]? = some line ∧ line.isBlank = false ∧
    startsWith (strip line.text) indexDirective = false ∧ s.name = line.stripped ∧
      s.span.start = line.position
  underline : ∃ line, lines[h + 1]? = some line ∧
    (∃ c n, (c = byte '-' ∨ c = byte '=') ∧ strip line.text = List.replicate (n + 1) c) ∧
      (s.validUnderline = true ↔ (strip line.text).length = s.name.value.length)
  contents : s.contents = .ofBody s.name.value indent (lines.extract (h + 2) e)
  stop : ∃ line, lines[e - 1]? = some line ∧ s.span.stop = line.stop

theorem layoutMarks_append (a b : List Flaw) :
    layoutMarks (a ++ b) = layoutMarks a ++ layoutMarks b := by
  simp [layoutMarks]

theorem layoutMarks_crowdedSection (header : Fragment) :
    layoutMarks [.crowdedSection header] = [(Code.gle02.name, header.span)] := by
  have hcode : (Flaw.crowdedSection header).diagnostic.code ≠ Code.sae01.name := by
    show Code.gle02.name ≠ Code.sae01.name
    decide
  rw [layoutMarks, List.map_singleton, List.filter_singleton, decide_eq_true hcode]
  rfl

theorem layoutMarks_underlineLength (header underline : Fragment) :
    layoutMarks [.underlineLength header underline] = [(Code.gle03.name, underline.span)] := by
  have hcode : (Flaw.underlineLength header underline).diagnostic.code ≠ Code.sae01.name := by
    show Code.gle03.name ≠ Code.sae01.name
    decide
  rw [layoutMarks, List.map_singleton, List.filter_singleton, decide_eq_true hcode]
  rfl

/-- The body of a section yields no marks: its flaws are stray commas and periods. -/
theorem layoutMarks_contents (name : Bytes) (indent : Nat) (body : List DocLine) :
    layoutMarks (SectionContents.flaws name indent body) = [] := by
  unfold layoutMarks SectionContents.flaws
  rw [List.map_eq_nil_iff, List.filter_eq_nil_iff]
  intro d hd
  split at hd
  · obtain ⟨flaw, hflaw, rfl⟩ := List.mem_map.1 hd
    have hstray := SeeAlsoEntry.flaws_isIn indent (fun _ h => h) flaw hflaw
    cases flaw with
    | crowdedSection header => exact hstray.elim
    | underlineLength header underline => exact hstray.elim
    | strayMark position mark => simp [Flaw.diagnostic, Code.finding]
  · simp at hd

/-- What is wrong with a header is what stands above it and the length of its underline. -/
theorem layoutMarks_header {lines : List DocLine} {h : Nat} {header underline : DocLine}
    (hheader : lines[h]? = some header) (hunderline : lines[h + 1]? = some underline) :
    layoutMarks
        ((if (if 0 < h then lines[h - 1]? else none).any fun l => !l.isBlank then
            [.crowdedSection header.stripped] else []) ++
          if underline.stripped.value.length == header.stripped.value.length then [] else
            [.underlineLength header.stripped underline.stripped]) = headerMarks lines h := by
  rw [layoutMarks_append, headerMarks, hheader, hunderline]
  congr 1
  · by_cases hfirst : 0 < h
    · simp only [hfirst, if_true, true_and]
      split
      · exact layoutMarks_crowdedSection _
      · rfl
    · simp only [hfirst, if_false, false_and]
      rfl
  · split
    next heq => exact (if_pos (beq_iff_eq.1 heq)).symm
    next hne =>
      exact (layoutMarks_underlineLength _ _).trans (if_neg fun heq => hne (beq_iff_eq.2 heq)).symm

theorem drop_eq_cons {lines : List DocLine} {i : Nat} {line : DocLine}
    (h : lines[i]? = some line) : lines.drop i = line :: lines.drop (i + 1) := by
  obtain ⟨hi, rfl⟩ := List.getElem?_eq_some_iff.1 h
  exact List.drop_eq_getElem_cons hi

/-! ### One chunk -/

section Chunk

variable {lines : List DocLine} {h e : Nat} (ends : EndsAt lines h e) (start : BoundaryAt lines h)
include ends start

/-- Lines from a boundary to the next that begin no section are read as none. -/
theorem ofLines_eq_none (above : Option DocLine) (indent : Nat)
    (hheads : headsSection lines h = false) :
    DocSection.ofLines above indent (lines.extract h e) = none := by
  have hlength := ends.le_length
  have hbehind := ends.behind
  have hheader := List.getElem?_eq_getElem (Nat.lt_of_lt_of_le hbehind hlength)
  have hdrop := drop_eq_cons hheader
  generalize lines[h] = header at hheader hdrop
  rw [List.extract_eq_take_drop, hdrop]
  rcases Nat.lt_or_ge (h + 1) e with hroom | hroom
  · -- There is an underline, so the header must be an index directive.
    have hunderline := List.getElem?_eq_getElem (Nat.lt_of_lt_of_le hroom hlength)
    have hdrop' := drop_eq_cons hunderline
    generalize lines[h + 1] = underline at hunderline hdrop'
    obtain ⟨k, hk⟩ : ∃ k, e - h = k + 2 := ⟨e - h - 2, by omega⟩
    have hcalm := ends.calm (h + 1) (Nat.le_refl _) hroom
    rw [BoundaryAt, Bool.not_eq_true] at hcalm
    rw [BoundaryAt] at start
    rw [headsSection, start, hcalm, hheader] at hheads
    rw [hk, hdrop', List.take_succ_cons, List.take_succ_cons, DocSection.ofLines]
    have hindex : startsWith (strip header.text) indexDirective = true := by simpa using hheads
    simp only [DocLine.stripped, DocLine.fragment, hindex, Bool.true_or, if_true]
  · obtain rfl : e = h + 1 := by omega
    rw [Nat.add_sub_cancel_left, List.take_succ_cons, List.take_zero]
    rfl

/-- The header of a section is above an underline, which belongs to the chunk. -/
theorem exists_underline_of_headsSection (hheads : headsSection lines h = true) :
    ∃ header underline, lines[h]? = some header ∧ header.isBlank = false ∧
      startsWith (strip header.text) indexDirective = false ∧ lines[h + 1]? = some underline ∧
      isUnderline (strip underline.text) = true ∧ h + 2 ≤ e ∧
      lines.extract h e = header :: underline :: lines.extract (h + 2) e := by
  have hlength := ends.le_length
  have hbehind := ends.behind
  have hheader := List.getElem?_eq_getElem (Nat.lt_of_lt_of_le hbehind hlength)
  have hdrop := drop_eq_cons hheader
  generalize lines[h] = header at hheader hdrop
  simp only [headsSection, hheader, Option.any_some, Bool.and_eq_true,
    Bool.not_eq_true'] at hheads
  obtain ⟨⟨-, hnext⟩, hindex⟩ := hheads
  rw [BoundaryAt, hdrop] at start
  obtain ⟨underline, hunderline, hmarked⟩ := exists_underline_of_isBoundary start hindex
  rw [Option.mem_def, List.head?_drop] at hunderline
  have hroom : h + 2 ≤ e := by
    by_contra hnarrow
    obtain rfl : e = h + 1 := by omega
    have hlt : h + 1 < lines.length := (List.getElem?_eq_some_iff.1 hunderline).1
    exact absurd (ends.boundary hlt) (by rw [BoundaryAt, hnext]; exact Bool.false_ne_true)
  refine ⟨header, underline, hheader, not_isBlank_of_isBoundary start, hindex, hunderline, hmarked,
    hroom, ?_⟩
  obtain ⟨k, hk⟩ : ∃ k, e - h = k + 2 := ⟨e - h - 2, by omega⟩
  rw [List.extract_eq_take_drop, List.extract_eq_take_drop, hdrop, drop_eq_cons hunderline, hk,
    List.take_succ_cons, List.take_succ_cons, show e - (h + 2) = k by omega]

omit start in
/-- A chunk ends with its last line. -/
theorem getLast?_extract : (lines.extract h e).getLast? = lines[e - 1]? := by
  have hlength := ends.le_length
  have hbehind := ends.behind
  rw [List.extract_eq_take_drop, List.getLast?_eq_getElem?, List.getElem?_take, List.getElem?_drop]
  simp only [List.length_take, List.length_drop]
  rw [if_pos (by omega)]
  congr 1
  omega

/-- Lines from a boundary to the next that begin a section are read as this section. -/
theorem ofLines_occupies (indent : Nat) (hheads : headsSection lines h = true) :
    ∃ s flaws, DocSection.ofLines (if 0 < h then lines[h - 1]? else none) indent
        (lines.extract h e) = some (s, flaws) ∧
      s.Occupies lines indent h e ∧ layoutMarks flaws = headerMarks lines h := by
  obtain ⟨header, underline, hheader, hblank, hindex, hunderline, hmarked, hroom, hextract⟩ :=
    exists_underline_of_headsSection ends start hheads
  have hlast := getLast?_extract ends
  have hsections := DocSection.ofLines.eq_1 (if 0 < h then lines[h - 1]? else none) indent header
    underline (lines.extract (h + 2) e)
  rw [hextract] at hlast ⊢
  refine ⟨_, _, (hsections.trans (if_neg ?_)), ⟨ends, hroom, ⟨header, hheader, hblank, hindex, rfl,
    rfl⟩, ⟨underline, hunderline, (isUnderline_iff _).1 hmarked, beq_iff_eq⟩, rfl, ?_⟩, ?_⟩
  · simp [DocLine.stripped, DocLine.fragment, hindex, hmarked]
  · have hlength := ends.le_length
    obtain ⟨last, hlast'⟩ : ∃ last, lines[e - 1]? = some last :=
      ⟨_, List.getElem?_eq_getElem (by omega)⟩
    refine ⟨last, hlast', ?_⟩
    rw [hlast'] at hlast
    simp [Paragraph.span, hlast]
  · rw [layoutMarks_append, layoutMarks_contents, List.append_nil]
    exact layoutMarks_header hheader hunderline

end Chunk

/-! ### All sections -/

/-- No section begins where no boundary is. -/
theorem headersFrom_of_calm {lines : List DocLine} {a b : Nat} (hab : a ≤ b)
    (hb : b ≤ lines.length) (hcalm : CalmBetween lines a b) :
    headersFrom lines a = headersFrom lines b := by
  have hrange : List.range' a (lines.length - a) =
      List.range' a (b - a) ++ List.range' b (lines.length - b) := by
    have happend := List.range'_append_1 (s := a) (m := b - a) (n := lines.length - b)
    rw [Nat.add_sub_cancel' hab, show b - a + (lines.length - b) = lines.length - a by omega]
      at happend
    exact happend.symm
  have hnone : (List.range' a (b - a)).filter (headsSection lines) = [] := by
    rw [List.filter_eq_nil_iff]
    intro i hi hheads
    rw [List.mem_range'_1] at hi
    simp only [headsSection, Bool.and_eq_true] at hheads
    exact hcalm i hi.1 (by omega) hheads.1.1
  rw [headersFrom, hrange, List.filter_append, hnone, List.nil_append, headersFrom]

/-- Of the lines of a chunk only the first can begin a section. -/
theorem headersFrom_of_endsAt {lines : List DocLine} {h e : Nat} (ends : EndsAt lines h e) :
    headersFrom lines h =
      if headsSection lines h then h :: headersFrom lines e else headersFrom lines e := by
  have hlt : h < lines.length := Nat.lt_of_lt_of_le ends.behind ends.le_length
  have hrange : List.range' h (lines.length - h) =
      h :: List.range' (h + 1) (lines.length - (h + 1)) := by
    rw [show lines.length - h = lines.length - (h + 1) + 1 by omega, List.range'_succ]
  rw [headersFrom, hrange, List.filter_cons, ← headersFrom,
    headersFrom_of_calm ends.behind ends.le_length ends.calm]

/-- The stretches that sections take up, each with its own end. -/
theorem exists_places {lines : List DocLine} {indent : Nat} {sections : List DocSection}
    {headers : List Nat}
    (h : List.Forall₂ (fun s h => ∃ e, DocSection.Occupies lines indent s h e) sections headers) :
    ∃ places : List (Nat × Nat),
      List.Forall₂ (fun s place => s.Occupies lines indent place.1 place.2) sections places ∧
        places.map Prod.fst = headers ∧ ∀ place ∈ places, EndsAt lines place.1 place.2 := by
  induction h with
  | nil => exact ⟨[], .nil, rfl, by simp⟩
  | @cons s header _ _ hfirst _ ih =>
      obtain ⟨e, hoccupies⟩ := hfirst
      obtain ⟨places, hplaces, hheaders, hends⟩ := ih
      refine ⟨(header, e) :: places, .cons hoccupies hplaces, by rw [List.map_cons, hheaders],
        fun place hplace => ?_⟩
      rcases List.mem_cons.1 hplace with rfl | hplace
      · exact hoccupies.endsAt
      · exact hends place hplace

/-- What begins at a header ends in front of every later header. -/
theorem pairwise_places {lines : List DocLine} {places : List (Nat × Nat)} {a : Nat}
    (hheaders : places.map Prod.fst = headersFrom lines a)
    (hends : ∀ place ∈ places, EndsAt lines place.1 place.2) :
    places.Pairwise fun p q => p.1 < q.1 ∧ p.2 ≤ q.1 := by
  have hsorted : (places.map Prod.fst).Pairwise (· < ·) := by
    rw [hheaders]
    exact List.Pairwise.filter _ List.pairwise_lt_range'
  rw [List.pairwise_map] at hsorted
  refine hsorted.imp_of_mem fun {p q} hp hq hlt => ⟨hlt, ?_⟩
  by_contra hoverlap
  have hmem : q.1 ∈ headersFrom lines a := hheaders ▸ List.mem_map_of_mem hq
  have hheads := (List.mem_filter.1 hmem).2
  simp only [headsSection, Bool.and_eq_true] at hheads
  exact (hends p hp).calm q.1 hlt (Nat.lt_of_not_le hoverlap) hheads.1.1

namespace Docstring

open LineReader

/-- From a boundary on there is one section for each header, in order, and one list of flaws for
each section. -/
theorem readSections_occupy (indent : Nat) (r : LineReader) (hmark : r.AtMark) :
    List.Forall₂ (fun s h => ∃ e, s.Occupies r.lines indent h e) (readSections indent r).1
        (headersFrom r.lines r.position) ∧
      layoutMarks (readSections indent r).2 =
        (headersFrom r.lines r.position).flatMap (headerMarks r.lines) := by
  by_cases hend : r.rest = []
  · have hlength : r.lines.length - r.position = 0 := by
      rw [LineReader.lines, hend, List.append_nil, List.length_reverse, position, Nat.sub_self]
    rw [readSections_of_end (hmark.skipBlank_eq.symm ▸ hend), headersFrom, hlength]
    exact ⟨.nil, rfl⟩
  have hmore : r.skipBlank.rest ≠ [] := hmark.skipBlank_eq.symm ▸ hend
  have start : BoundaryAt r.lines r.position :=
    (boundaryAt_position r).2 (hmark.resolve_left hend)
  have ends := readUntilBoundary_endsAt hend
  have hchunk : r.readUntilBoundary.1 = r.lines.extract r.position r.readUntilBoundary.2.position :=
    take_eq_extract r _
  have hlines : r.readUntilBoundary.2.lines = r.lines := lines_take r _
  -- The rest begins at the next boundary again.
  have ih := readSections_occupy indent r.readUntilBoundary.2 (atMark_readUntilBoundary r)
  rw [hlines] at ih
  rw [headersFrom_of_endsAt ends]
  by_cases hheads : headsSection r.lines r.position = true
  · obtain ⟨s, flaws, hsome, hoccupies, hmarks⟩ := ofLines_occupies ends start indent hheads
    rw [← previous_eq, ← hchunk] at hsome
    have hround : readSections indent r = _ :=
      readSections_of_some hmore (by rw [hmark.skipBlank_eq]; exact hsome)
    rw [hmark.skipBlank_eq] at hround
    rw [hround, if_pos hheads, layoutMarks_append, List.flatMap_cons, hmarks, ih.2]
    exact ⟨.cons ⟨_, hoccupies⟩ ih.1, rfl⟩
  · have hnone := ofLines_eq_none ends start r.previous indent (eq_false_of_ne_true hheads)
    rw [← hchunk] at hnone
    have hround : readSections indent r = _ :=
      readSections_of_none hmore (by rw [hmark.skipBlank_eq]; exact hnone)
    rw [hmark.skipBlank_eq] at hround
    rw [hround, if_neg hheads]
    exact ih
termination_by r.rest.length
decreasing_by
  have hposition := ends.behind
  have hlength := congrArg List.length hlines
  simp only [LineReader.lines, LineReader.position, List.length_append, List.length_reverse]
    at hposition hlength
  omega

/-- There is one section for each header among the lines, in order, and one list of flaws for each
section. -/
theorem ofLiteral_occupies (literal : DocLiteral) :
    List.Forall₂ (fun s h => ∃ e, s.Occupies literal.lines literal.indent.toNat h e)
        (ofLiteral literal).1.sections (headersFrom literal.lines 0) ∧
      layoutMarks (ofLiteral literal).2 =
        (headersFrom literal.lines 0).flatMap (headerMarks literal.lines) := by
  have hread := DocSummary.read_passes { rest := literal.lines }
  dsimp only [ofLiteral]
  generalize DocSummary.read { rest := literal.lines } = read at hread ⊢
  obtain ⟨hpasses, hmark, -⟩ := hread
  have hlines : read.2.lines = literal.lines := hpasses.lines_eq
  -- No section begins in front of the summary or in it.
  have hheaders : headersFrom literal.lines 0 = headersFrom literal.lines read.2.position :=
    headersFrom_of_calm (Nat.zero_le _) (hlines ▸ position_le _) hpasses.calm
  have hsections := readSections_occupy literal.indent.toNat read.2 hmark
  rw [hlines, ← hheaders] at hsections
  exact hsections

/-- The sections of a docstring take up stretches of its lines, one after the other: each from a
header with its underline to the next boundary, which is where the flaws of the header are found.
Neither the summary, nor the extended summary, nor a body has a boundary inside. -/
theorem ofLiteral_isSegmented (literal : DocLiteral) :
    let doc := (ofLiteral literal).1
    let flaws := (ofLiteral literal).2
    (∀ s ∈ doc.summary, IsCalmPiece doc.lines s.summary ∧
        ∀ p ∈ s.extended, IsCalmPiece doc.lines p) ∧
      ∃ places : List (Nat × Nat),
        List.Forall₂ (fun s place => s.Occupies doc.lines doc.indent.toNat place.1 place.2)
          doc.sections places ∧
        places.map Prod.fst = headersFrom doc.lines 0 ∧
        places.Pairwise (fun p q => p.1 < q.1 ∧ p.2 ≤ q.1) ∧
        layoutMarks flaws = places.flatMap fun place => headerMarks doc.lines place.1 := by
  obtain ⟨hsections, hflaws⟩ := ofLiteral_occupies literal
  obtain ⟨-, -, hsummary⟩ := DocSummary.read_passes { rest := literal.lines }
  obtain ⟨places, hplaces, hfirsts, hends⟩ := exists_places hsections
  refine ⟨hsummary, places, hplaces, hfirsts, pairwise_places hfirsts hends, hflaws.trans ?_⟩
  rw [← hfirsts, List.flatMap_map]
  rfl

end Docstring

end DocLint
