import DocLint.Proofs.Docstring.Literal
import DocLint.Proofs.Reindentation.Entries
import DocLint.Proofs.Source.StringLiteral

/-!
# Reindented docstrings

Reading a reindented literal gives the same docstring at another place.  The bodies of sections
begin below two other lines, so that all of their lines gain spaces; only the summary and the header
of the first section can stand on the line that does not.

* `ofText_reindent`: the reindented literal is taken apart at the same places.
* `readSections_reindent`, `ofLiteral_reindent`: reading a reindented literal reindents what is
  read.
-/

namespace DocLint

open Bytes

/-- The beginning of a line of a docstring: the columns are spaces on the line where it begins where
a line of the file begins. -/
def Position.slide (n k : Nat) (p : Position) : Position :=
  p.shift n (if p.column = 1 then 0 else k)

theorem DocLine.position_reindent (n k : Nat) (line : DocLine) :
    (line.reindent n k).position = line.position.slide n k := by
  rw [reindent, push, Position.slide, gained]
  by_cases h : line.position.column = 1
  · rw [if_pos h, if_pos h, Nat.sub_self]
  · rw [if_neg h, if_neg h, Nat.sub_zero]

/-! ### Sections -/

namespace SectionContents

/-- The contents at the moved place. -/
def shift (n k : Nat) : SectionContents → SectionContents
  | parameters entries => .parameters (entries.map (ParameterEntry.shift n k))
  | seeAlso entries => .seeAlso (entries.map (SeeAlsoEntry.shift n k))
  | text lines => .text (lines.map (DocLine.indented n k))

theorem ofBody_indented (n k indent : Nat) (name : Bytes) (body : List DocLine) :
    ofBody name (indent + k) (body.map (DocLine.indented n k)) =
      (ofBody name indent body).shift n k := by
  have htrim : Paragraph.trim (body.map (DocLine.indented n k)) =
      (Paragraph.trim body).map (DocLine.indented n k) :=
    trim_map (fun line => DocLine.strip_push line) body
  unfold ofBody
  rw [ParameterEntry.entries_indented, ParameterEntry.entries_indented,
    SeeAlsoEntry.entries_indented, htrim]
  split
  · rfl
  · split
    · rfl
    · split
      · rfl
      · rfl

theorem flaws_indented (n k indent : Nat) (name : Bytes) (body : List DocLine) :
    flaws name (indent + k) (body.map (DocLine.indented n k)) =
      (flaws name indent body).map (Flaw.shift n k) := by
  unfold flaws
  rw [SeeAlsoEntry.flaws_indented]
  split
  · rfl
  · rfl

end SectionContents

theorem Paragraph.span_reindent (n k : Nat) {p : Paragraph} (h : p ≠ []) :
    span (p.map (DocLine.reindent n k)) =
      ⟨(span p).start.slide n k, (span p).stop.shift n k⟩ := by
  unfold span
  rw [List.head?_map, List.getLast?_map, List.head?_eq_some_head h, List.getLast?_eq_some_getLast h]
  simp only [Option.map_some, DocLine.position_reindent, Span.mk.injEq, true_and]
  exact DocLine.stop_push _ (DocLine.gained_le k _)

namespace DocSection

/-- The section of the reindented docstring. -/
def reindent (n k : Nat) (s : DocSection) : DocSection where
  name := s.name.shift n k
  validUnderline := s.validUnderline
  contents := s.contents.shift n k
  span := ⟨s.span.start.slide n k, s.span.stop.shift n k⟩

/-- Only the header of a section can stand on the line that gains no spaces. -/
theorem ofLines_reindent (n k indent : Nat) (above : Option DocLine) {lines : List DocLine}
    (h : ∀ line ∈ lines.tail, line.position.column = 1) :
    ofLines (above.map (DocLine.reindent n k)) (indent + k) (lines.map (DocLine.reindent n k)) =
      (ofLines above indent lines).map fun (found, flaws) =>
        (found.reindent n k, flaws.map (Flaw.shift n k)) := by
  match lines, h with
  | [], _ => rfl
  | [header], _ => rfl
  | header :: line :: body, h =>
      have hspan := Paragraph.span_reindent n k (p := header :: line :: body) (by simp)
      -- All lines of the body begin lines of the file, so that each of them gains the spaces.
      have hbody : body.map (DocLine.reindent n k) = body.map (DocLine.indented n k) :=
        List.map_congr_left fun l hl =>
          DocLine.reindent_eq_indented (h l (List.mem_cons_of_mem line hl)) n k
      have hstripped (l : DocLine) : (l.reindent n k).stripped = l.stripped.shift n k :=
        DocLine.stripped_push l (DocLine.gained_le k l)
      have habove : ((above.map (DocLine.reindent n k)).any fun l => !l.isBlank) =
          above.any fun l => !l.isBlank := by
        cases above with
        | none => rfl
        | some l =>
            exact congrArg not (isBlank_of_keepsContent (DocLine.keepsContent_reindent n k) l)
      rw [List.map_cons, List.map_cons, hbody] at hspan
      rw [List.map_cons, List.map_cons, ofLines, ofLines]
      simp only [hstripped, habove, hspan, hbody, Fragment.shift, SectionContents.ofBody_indented,
        SectionContents.flaws_indented]
      split
      · rfl
      · simp only [Option.map_some, reindent, Fragment.shift, List.map_append, Option.some.injEq,
          Prod.mk.injEq, true_and]
        congr 2
        · split <;> rfl
        · split <;> rfl

end DocSection

namespace Docstring

/-- Sections are read from lines that all gain spaces, but for the first. -/
theorem readSections_reindent (n k indent : Nat) (r : LineReader)
    (h : ∀ line ∈ r.rest.tail, line.position.column = 1) :
    readSections (indent + k) (r.map (DocLine.reindent n k)) =
      ((readSections indent r).1.map (DocSection.reindent n k),
        (readSections indent r).2.map (Flaw.shift n k)) := by
  have hread := readSections_map (DocLine.keepsContent_reindent n k) (DocSection.reindent n k) id
    (Flaw.shift n k) id r fun above header body _ hbody => by
      have htail : ∀ line ∈ (header :: body).tail, line.position.column = 1 :=
        fun line hline => h line (hbody line hline)
      rw [List.map_id_fun, Prod.map_id, Option.map_id_fun]
      exact DocSection.ofLines_reindent n k indent above htail
  rw [List.map_id, List.map_id] at hread
  exact Prod.ext hread.1 hread.2

end Docstring

/-! ### Literals -/

/-- A text without newlines stands at the beginning of the reindented text only where it stood
before. -/
theorem isPrefix_of_isPrefix_reindent {k : Nat} {p s : Bytes} (hp : newline ∉ p)
    (h : p <+: reindent k s) : p <+: s := by
  induction p generalizing s with
  | nil => exact List.nil_prefix
  | cons c p ih =>
      rw [List.mem_cons, not_or] at hp
      cases s with
      | nil => exact absurd (List.prefix_nil.1 h) (by simp)
      | cons b r =>
          by_cases hb : b = newline
          · rw [reindent, if_pos hb, List.cons_prefix_cons] at h
            exact absurd (h.1.trans hb).symm hp.1
          · rw [reindent, if_neg hb, List.cons_prefix_cons] at h
            rw [List.cons_prefix_cons]
            exact ⟨h.1, ih hp.2 h.2⟩

/-- The delimiters of a reindented literal stay. -/
theorem IsWritten.reindent {text mark delimiter body : Bytes}
    (h : IsWritten text mark delimiter body) (k : Nat) :
    IsWritten (Bytes.reindent k text) mark delimiter (Bytes.reindent k body) := by
  have hopening := h.newline_not_mem_opening
  rw [List.mem_append, not_or] at hopening
  have hself := reindent_eq_self hopening.2 k
  have hquoted : Bytes.reindent k (delimiter ++ (body ++ delimiter)) =
      delimiter ++ (Bytes.reindent k body ++ delimiter) := by
    rw [reindent_append, reindent_append, hself]
  refine ⟨?_, h.mark_plain, ?_⟩
  · rw [h.text_eq, reindent_append, reindent_eq_self hopening.1, hquoted]
  · obtain ⟨q, hq, hlong | ⟨hone, hshort⟩⟩ := h.delimiter_quotes
    · exact ⟨q, hq, .inl hlong⟩
    · refine ⟨q, hq, .inr ⟨hone, fun hprefix => hshort ?_⟩⟩
      rw [← hquoted] at hprefix
      have hne := ne_newline_of_isQuote hq
      exact isPrefix_of_isPrefix_reindent (by simp [Ne.symm hne]) hprefix

namespace DocLiteral

/-- The literal at the moved place, its body reindented. -/
def reindent (n k : Nat) (literal : DocLiteral) : DocLiteral where
  body := Bytes.reindent k literal.body
  start := literal.start.shift n k
  bodyStart := literal.bodyStart.shift n k
  stop := literal.stop.shift n k
  indent := literal.indent + UInt32.ofNat k

/-- The reindented literal is taken apart at the same places. -/
theorem ofText_reindent {text mark delimiter body : Bytes}
    (h : IsWritten text mark delimiter body) (n k : Nat) (start : Position) :
    ofText (Bytes.reindent k text) (start.shift n k) = (ofText text start).reindent n k := by
  have hindent : start.column + UInt32.ofNat k - 1 = start.column - 1 + UInt32.ofNat k := by
    rw [UInt32.sub_eq_add_neg, UInt32.sub_eq_add_neg, UInt32.add_assoc,
      UInt32.add_comm (UInt32.ofNat k), UInt32.add_assoc]
  rw [(h.reindent k).ofText_eq, h.ofText_eq, reindent, Position.right_shift,
    Position.after_reindent, Position.shift, hindent]

/-- The lines but the first begin a line of the file, and gain spaces. -/
theorem lines_reindent (n k : Nat) {literal : DocLiteral} (h : literal.bodyStart.column ≠ 1) :
    (literal.reindent n k).lines = literal.lines.map (DocLine.reindent n k) := by
  obtain ⟨first, rest, hbody⟩ := List.exists_cons_of_ne_nil (lines_ne_nil literal.body)
  have hbody' : Bytes.lines (literal.reindent n k).body = first :: rest.map (spaces k ++ ·) :=
    Bytes.lines_reindent k hbody
  rw [lines_of_body hbody, lines_of_body hbody', List.map_cons]
  congr 1
  · rw [DocLine.reindent, DocLine.gained, if_neg h]
    rfl
  · apply List.ext_getElem
    · simp
    · intro i _ _
      simp only [List.getElem_mapIdx, List.getElem_map]
      rw [DocLine.reindent_eq_indented rfl, DocLine.indented, DocLine.push, Nat.sub_self]
      simp only [reindent, Position.shift, DocLine.mk.injEq, Position.mk.injEq, and_true]
      refine ⟨?_, by simp⟩
      rw [UInt32.add_assoc, UInt32.add_comm (UInt32.ofNat n), UInt32.add_assoc]

end DocLiteral

namespace Docstring

/-- The docstring at the moved place, its lines reindented. -/
def reindent (n k : Nat) (doc : Docstring) : Docstring where
  lines := doc.lines.map (DocLine.reindent n k)
  start := doc.start.shift n k
  stop := doc.stop.shift n k
  indent := doc.indent + UInt32.ofNat k
  summary := doc.summary.map (DocSummary.map (DocLine.reindent n k))
  sections := doc.sections.map (DocSection.reindent n k)

/-- Reading a reindented literal reindents what is read. -/
theorem ofLiteral_reindent (n k : Nat) {literal : DocLiteral}
    (hstart : literal.bodyStart.column ≠ 1) (hindent : literal.indent.toNat + k < 2 ^ 32) :
    ofLiteral (literal.reindent n k) =
      ((ofLiteral literal).1.reindent n k, (ofLiteral literal).2.map (Flaw.shift n k)) := by
  have hlines := literal.lines_reindent n k hstart
  have hread : DocSummary.read { rest := literal.lines.map (DocLine.reindent n k) } = _ :=
    DocSummary.read_map (DocLine.keepsContent_reindent n k) { rest := literal.lines }
  have hindent' : (literal.indent + UInt32.ofNat k).toNat = literal.indent.toNat + k := by
    rw [UInt32.toNat_add, UInt32.toNat_ofNat']
    omega
  have hsections := readSections_reindent n k literal.indent.toNat
    (DocSummary.read { rest := literal.lines }).2 (fun line hline => by
      obtain ⟨first, rest, hbody⟩ := List.exists_cons_of_ne_nil (lines_ne_nil literal.body)
      have htail := mem_tail_of_suffix (DocSummary.rest_read_suffix _) hline
      rw [show (LineReader.mk [] literal.lines).rest = literal.lines from rfl,
        DocLiteral.lines_of_body hbody, List.tail_cons] at htail
      obtain ⟨i, _, rfl⟩ := List.mem_mapIdx.1 htail
      rfl)
  have hindentation : (literal.reindent n k).indent.toNat = literal.indent.toNat + k := hindent'
  unfold ofLiteral
  simp only [hlines, hread, hindentation, hsections]
  rfl

end Docstring

end DocLint
