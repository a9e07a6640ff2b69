import DocLint.Docstring.Basic
import DocLint.Proofs.Docstring.Literal
import DocLint.Proofs.Docstring.ReferencePieces
import DocLint.Proofs.Docstring.Sections
import DocLint.Proofs.Docstring.Summary
import DocLint.Proofs.Source.TokenPlace
import Mathlib

/-!
# Positions tell the truth

Whatever has a position in a docstring that was read stands at this position in the source file:
the lines and all pieces of them, the names and types of entries, and the texts that the flaws are
about.

* `readSections_isIn`: sections are made of pieces of the lines ahead.
* `ofLiteral_isIn`: a docstring is made of pieces of its lines.
* `ofLiteral_standsAt`: these pieces stand in the source file, byte for byte.
-/

namespace DocLint

open Bytes

/-! ### Everything with a position -/

namespace SectionContents

/-- The lines of the body that were kept, whole or in part. -/
def pieces : SectionContents → List DocLine
  | parameters entries => entries.flatMap ParameterEntry.pieces
  | seeAlso entries => entries.flatMap SeeAlsoEntry.pieces
  | text lines => lines

/-- The names and types in the body. -/
def fragments : SectionContents → List Fragment
  | parameters entries => entries.flatMap ParameterEntry.fragments
  | seeAlso entries => entries.flatMap SeeAlsoEntry.fragments
  | text _ => []

end SectionContents

namespace Docstring

/-- All lines, whole or in part, that a docstring holds: its lines, those of the summary and the
extended summary, and those of the sections. -/
def pieces (doc : Docstring) : List DocLine :=
  doc.lines ++ (doc.summary.elim [] fun s => s.summary ++ s.extended.getD []) ++
    doc.sections.flatMap fun s => s.contents.pieces

/-- All names and types that a docstring holds. -/
def fragments (doc : Docstring) : List Fragment :=
  doc.sections.flatMap fun s => s.name :: s.contents.fragments

end Docstring

namespace Flaw

/-- The text that a flaw is about. -/
def place : Flaw → Fragment
  | crowdedSection header => header
  | underlineLength _ underline => underline
  | strayMark position mark => ⟨[mark], .ofLength position 1⟩

/-- The flaw is about the header of a section, about its underline on the next line, or about a comma
or period. -/
def IsFoundIn (lines : List DocLine) : Flaw → Prop
  | crowdedSection header =>
    ∃ above below, [above, below] <:+: lines ∧ isUnderline (strip below.text) = true ∧
      header = above.stripped
  | underlineLength header underline =>
    ∃ above below, [above, below] <:+: lines ∧ isUnderline (strip below.text) = true ∧
      header = above.stripped ∧ underline = below.stripped
  | strayMark position mark =>
    (mark = byte ',' ∨ mark = byte '.') ∧ HoldsAt lines position [mark]

/-- A finding about a flaw covers the text that the flaw is about. -/
theorem span_diagnostic (flaw : Flaw) : flaw.diagnostic.span = flaw.place.span := by
  cases flaw with
  | crowdedSection header => rfl
  | underlineLength header underline => rfl
  | strayMark position mark => rfl

theorem IsFoundIn.isIn {lines : List DocLine} {flaw : Flaw} (h : flaw.IsFoundIn lines) :
    flaw.place.IsIn lines := by
  cases flaw with
  | crowdedSection header =>
      obtain ⟨above, below, hnext, -, rfl⟩ := h
      exact (DocLine.isIn_of_mem (hnext.subset List.mem_cons_self)).stripped
  | underlineLength header underline =>
      obtain ⟨above, below, hnext, -, -, rfl⟩ := h
      exact (DocLine.isIn_of_mem
        (hnext.subset (List.mem_cons_of_mem above List.mem_cons_self))).stripped
  | strayMark position mark => exact ⟨h.2, rfl⟩

end Flaw

/-! ### Sections -/

/-- The pieces of the section are held by the lines. -/
def DocSection.IsIn (lines : List DocLine) (s : DocSection) : Prop :=
  (∀ l ∈ s.contents.pieces, l.IsIn lines) ∧ ∀ f ∈ s.name :: s.contents.fragments, f.IsIn lines

theorem SectionContents.ofBody_isIn {lines : List DocLine} (name : Bytes) (indent : Nat)
    {body : List DocLine} (hbody : ∀ line ∈ body, line ∈ lines) :
    (∀ l ∈ (ofBody name indent body).pieces, l.IsIn lines) ∧
      ∀ f ∈ (ofBody name indent body).fragments, f.IsIn lines := by
  have hparameters (bareTypes : Bool) :
      (∀ l ∈ (parameters (ParameterEntry.entries indent bareTypes body)).pieces, l.IsIn lines) ∧
        ∀ f ∈ (parameters (ParameterEntry.entries indent bareTypes body)).fragments,
          f.IsIn lines := by
    have hentries := ParameterEntry.entries_isIn indent bareTypes hbody
    refine ⟨fun l hl => ?_, fun f hf => ?_⟩
    · obtain ⟨entry, hentry, hl⟩ := List.mem_flatMap.1 hl
      exact (hentries entry hentry).1 l hl
    · obtain ⟨entry, hentry, hf⟩ := List.mem_flatMap.1 hf
      exact (hentries entry hentry).2 f hf
  -- The name of the section decides how its body is read.
  unfold ofBody
  split
  · exact hparameters false
  · split
    · exact hparameters true
    · split
      · have hentries := SeeAlsoEntry.entries_isIn indent hbody
        refine ⟨fun l hl => ?_, fun f hf => ?_⟩
        · obtain ⟨entry, hentry, hl⟩ := List.mem_flatMap.1 hl
          exact (hentries entry hentry).1 l hl
        · obtain ⟨entry, hentry, hf⟩ := List.mem_flatMap.1 hf
          exact (hentries entry hentry).2 f hf
      · refine ⟨fun l hl => DocLine.isIn_of_mem (hbody l ?_), by simp [fragments]⟩
        have hmem := (List.dropWhile_suffix _).subset hl
        rw [List.mem_reverse] at hmem
        exact List.mem_reverse.1 ((List.dropWhile_suffix _).subset hmem)

/-- A section and its flaws are made of pieces of its lines. -/
theorem DocSection.ofLines_isIn {lines all : List DocLine} (hlines : lines <:+: all)
    {above : Option DocLine} {indent : Nat} {s : DocSection} {flaws : List Flaw}
    (h : ofLines above indent lines = some (s, flaws)) :
    s.IsIn all ∧ ∀ flaw ∈ flaws, flaw.IsFoundIn all := by
  unfold ofLines at h
  split at h
  next header line body =>
    dsimp only at h
    split at h
    · cases h
    next hunderline =>
      cases h
      -- The flaws need to know that the underline is the next line, not just some line.
      have hnext : [header, line] <:+: all :=
        (show [header, line] <+: header :: line :: body from ⟨body, rfl⟩).isInfix.trans hlines
      have hbody : ∀ l ∈ body, l ∈ all := fun l hl =>
        hlines.subset (List.mem_cons_of_mem header (List.mem_cons_of_mem line hl))
      have hheader := DocLine.isIn_of_mem (hlines.subset List.mem_cons_self)
      have hcontents := SectionContents.ofBody_isIn header.stripped.value indent hbody
      rw [Bool.or_eq_true, not_or] at hunderline
      have hmarked : isUnderline line.stripped.value = true := by simpa using hunderline.2
      refine ⟨⟨hcontents.1, fun f hf => ?_⟩, fun flaw hflaw => ?_⟩
      · rcases List.mem_cons.1 hf with rfl | hf
        · exact hheader.stripped
        · exact hcontents.2 f hf
      · simp only [List.mem_append] at hflaw
        rcases hflaw with (hflaw | hflaw) | hflaw
        · split at hflaw
          · rw [List.mem_singleton.1 hflaw]
            exact ⟨header, line, hnext, hmarked, rfl⟩
          · simp at hflaw
        · split at hflaw
          · simp at hflaw
          · rw [List.mem_singleton.1 hflaw]
            exact ⟨header, line, hnext, hmarked, rfl, rfl⟩
        · unfold SectionContents.flaws at hflaw
          split at hflaw
          · have hstray := SeeAlsoEntry.flaws_isIn indent hbody flaw hflaw
            cases flaw with
            | crowdedSection header => exact hstray.elim
            | underlineLength header underline => exact hstray.elim
            | strayMark position mark => exact hstray
          · simp at hflaw
  · cases h

namespace Docstring

/-- Sections and flaws are made of pieces of the lines ahead. -/
theorem readSections_isIn {all : List DocLine} (indent : Nat) {r : LineReader}
    (h : r.rest <:+ all) :
    (∀ s ∈ (readSections indent r).1, s.IsIn all) ∧
      ∀ flaw ∈ (readSections indent r).2, flaw.IsFoundIn all := by
  -- What is left after each round is a suffix of all lines.
  fun_induction readSections indent r with
  | case1 r here hend => simp
  | case2 r here hmore chunk more hnone ih =>
      exact ih ((List.drop_suffix _ _).trans ((DocSummary.rest_skipBlank_suffix r).trans h))
  | case3 r here hmore chunk more found flaws hsome ih =>
      have hhere : here.rest <:+ all := (DocSummary.rest_skipBlank_suffix r).trans h
      obtain ⟨hsections, hflaws⟩ := ih ((List.drop_suffix _ _).trans hhere)
      have hchunk : chunk.1 <:+: all := (List.take_prefix _ _).isInfix.trans hhere.isInfix
      obtain ⟨hfound, hnew⟩ := DocSection.ofLines_isIn hchunk hsome
      refine ⟨fun s hs => ?_, fun flaw hflaw => ?_⟩
      · rcases List.mem_cons.1 hs with rfl | hs
        · exact hfound
        · exact hsections s hs
      · rcases List.mem_append.1 hflaw with hflaw | hflaw
        · exact hnew flaw hflaw
        · exact hflaws flaw hflaw

/-- A docstring and its flaws are made of pieces of its lines. -/
theorem ofLiteral_isIn (literal : DocLiteral) :
    (∀ l ∈ (ofLiteral literal).1.pieces, l.IsIn literal.lines) ∧
      (∀ f ∈ (ofLiteral literal).1.fragments, f.IsIn literal.lines) ∧
        ∀ flaw ∈ (ofLiteral literal).2, flaw.IsFoundIn literal.lines := by
  obtain ⟨hsections, hflaws⟩ := readSections_isIn literal.indent.toNat
    (DocSummary.rest_read_suffix { rest := literal.lines })
  refine ⟨fun l hl => ?_, fun f hf => ?_, hflaws⟩
  · rcases List.mem_append.1 hl with hl | hl
    · rcases List.mem_append.1 hl with hl | hl
      · exact DocLine.isIn_of_mem hl
      · refine DocLine.isIn_of_mem ?_
        cases hsummary : (DocSummary.read { rest := literal.lines }).1 with
        | none => simp [ofLiteral, hsummary] at hl
        | some s =>
            refine DocSummary.mem_of_mem_read hsummary ?_
            simpa [ofLiteral, hsummary] using hl
    · obtain ⟨s, hs, hl⟩ := List.mem_flatMap.1 hl
      exact (hsections s hs).1 l hl
  · obtain ⟨s, hs, hf⟩ := List.mem_flatMap.1 hf
    exact (hsections s hs).2 f hf

end Docstring

/-! ### The source file -/

/-- The source text holds the fragment where its span begins, and the span ends as many columns
further right as the fragment has bytes. -/
def Fragment.StandsIn (source : Bytes) (f : Fragment) : Prop :=
  StandsAt source f.span.start f.value ∧ f.span.stop.line = f.span.start.line ∧
    f.span.stop.column.toNat = f.span.start.column.toNat + f.value.length

theorem HoldsAt.standsAt {source : Bytes} {lines : List DocLine} {p : Position} {text : Bytes}
    (h : HoldsAt lines p text) (hsize : source.length < 2 ^ 31)
    (hlines : ∀ line ∈ lines, StandsAt source line.position line.text) :
    StandsAt source p text ∧
      (p.right text.length).column.toNat = p.column.toNat + text.length := by
  obtain ⟨line, hline, k, rfl, hoccurs⟩ := h
  obtain ⟨hstands, hcolumn⟩ := (hlines line hline).right hsize hoccurs
  refine ⟨hstands, ?_⟩
  rw [DocLine.column, Position.right_right]
  exact hcolumn

theorem Fragment.IsIn.standsIn {source : Bytes} {lines : List DocLine} {f : Fragment}
    (h : f.IsIn lines) (hsize : source.length < 2 ^ 31)
    (hlines : ∀ line ∈ lines, StandsAt source line.position line.text) : f.StandsIn source := by
  obtain ⟨hstands, hcolumn⟩ := h.1.standsAt hsize hlines
  rw [StandsIn, h.2]
  exact ⟨hstands, rfl, hcolumn⟩

/-- The docstring of a closed string token of a source file that is small enough for positions:  its
lines make up the body of the literal, all its lines, names and types stand in the file at their
positions, and every flaw covers the text that it is about. -/
theorem ofLiteral_standsAt {source : Bytes} (hsize : source.length < 2 ^ 31) {t : Token}
    (ht : t ∈ (LexedSource.ofSource source).tokens) (hkind : t.kind = .string)
    (hclosed : ⟨t.position, .unterminatedString⟩ ∉ (LexedSource.ofSource source).faults) :
    let read := Docstring.ofLiteral (.ofText t.text t.position)
    (∃ mark delimiter body, IsWritten t.text mark delimiter body ∧
        join [newline] (read.1.lines.map DocLine.text) = body) ∧
      (∀ l ∈ read.1.pieces, StandsAt source l.position l.text) ∧
      (∀ f ∈ read.1.fragments, f.StandsIn source) ∧
      ∀ flaw ∈ read.2, flaw.IsFoundIn read.1.lines ∧
        flaw.diagnostic.span = flaw.place.span ∧ flaw.place.StandsIn source := by
  intro read
  obtain ⟨⟨front, behind, hsource, hposition, -⟩, mark, delimiter, body, hwritten⟩ :=
    LexedSource.string_isWritten ht hkind hclosed
  have hlines : ∀ line ∈ (DocLiteral.ofText t.text t.position).lines,
      StandsAt source line.position line.text := by
    rw [hposition]
    exact DocLiteral.lines_standAt hsource hsize hwritten
  obtain ⟨hpieces, hfragments, hflaws⟩ :=
    Docstring.ofLiteral_isIn (DocLiteral.ofText t.text t.position)
  refine ⟨⟨mark, delimiter, body, hwritten, ?_⟩, fun l hl => ?_, fun f hf => ?_,
    fun flaw hflaw => ?_⟩
  · show join [newline] ((DocLiteral.ofText t.text t.position).lines.map DocLine.text) = body
    rw [DocLiteral.map_text_lines, join_lines, hwritten.ofText_eq]
  · exact ((hpieces l hl).standsAt hsize hlines).1
  · exact (hfragments f hf).standsIn hsize hlines
  · have hfound := hflaws flaw hflaw
    exact ⟨hfound, flaw.span_diagnostic, hfound.isIn.standsIn hsize hlines⟩

/-- A function with a docstring behind a letter, whose only section is indented less than the
docstring, has a short underline and ends with a period. -/
def crookedSource : Bytes :=
  ascii "def f(a):\n    r'''Do\n\n  See Also\n    --\n     g.'''\n"

/-- The string token of `crookedSource`. -/
def crookedToken : Token where
  kind := .string
  text := ascii "r'''Do\n\n  See Also\n    --\n     g.'''"
  position := ⟨2, 5⟩
  offset := 14

theorem ofLiteral_standsAt_crookedSource :
    (crookedSource.length < 2 ^ 31 ∧ crookedToken ∈ (LexedSource.ofSource crookedSource).tokens ∧
      crookedToken.kind = .string ∧ ⟨crookedToken.position, .unterminatedString⟩ ∉
        (LexedSource.ofSource crookedSource).faults) ∧
      (let read := Docstring.ofLiteral (.ofText crookedToken.text crookedToken.position)
      (∃ mark delimiter body, IsWritten crookedToken.text mark delimiter body ∧
          join [newline] (read.1.lines.map DocLine.text) = body) ∧
        (∀ l ∈ read.1.pieces, StandsAt crookedSource l.position l.text) ∧
        (∀ f ∈ read.1.fragments, f.StandsIn crookedSource) ∧
        ∀ flaw ∈ read.2, flaw.IsFoundIn read.1.lines ∧
          flaw.diagnostic.span = flaw.place.span ∧ flaw.place.StandsIn crookedSource) := by
  -- The string is the ninth token: the lexer runs on the whole source here.
  have hsize : crookedSource.length < 2 ^ 31 := by cbv
  have hget : (LexedSource.ofSource crookedSource).tokens[8]? = some crookedToken := by cbv
  have hmem := List.mem_of_getElem? hget
  have hfaults : (LexedSource.ofSource crookedSource).faults = [] := by cbv
  have hclosed : ⟨crookedToken.position, .unterminatedString⟩ ∉
      (LexedSource.ofSource crookedSource).faults := by
    rw [hfaults]
    exact List.not_mem_nil
  exact ⟨⟨hsize, hmem, rfl, hclosed⟩, ofLiteral_standsAt hsize hmem rfl hclosed⟩

end DocLint
