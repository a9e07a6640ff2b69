import DocLint.Proofs.Docstring.Sections
import DocLint.Proofs.Docstring.Summary
import DocLint.Proofs.Text.Edges

/-!
# Section boundaries

Where the boundaries are is a matter of the lines alone.  The readers of the summary and of the
sections move one cursor, and none of them goes past a boundary unless it stands on it.

* `readUntilBoundary_endsAt`: a chunk ends at the next boundary.
* `read_passes`: the summary is read without passing a boundary, up to one or to the end.
-/

namespace DocLint

open Bytes

/-- Line `i` is a section boundary. -/
def BoundaryAt (lines : List DocLine) (i : Nat) : Prop := isBoundary (lines.drop i) = true

/-- None of the lines from `a` up to `b` is a section boundary. -/
def CalmBetween (lines : List DocLine) (a b : Nat) : Prop :=
  ∀ i, a ≤ i → i < b → ¬ BoundaryAt lines i

/-- What begins at line `h` ends in front of line `e`: at the next boundary, or at the end. -/
structure EndsAt (lines : List DocLine) (h e : Nat) : Prop where
  behind : h < e
  le_length : e ≤ lines.length
  boundary : e < lines.length → BoundaryAt lines e
  calm : CalmBetween lines (h + 1) e

/-- The paragraph consists of consecutive lines, none of which is a section boundary. -/
def IsCalmPiece (lines : List DocLine) (p : Paragraph) : Prop :=
  ∃ a b, a ≤ b ∧ b ≤ lines.length ∧ p = lines.extract a b ∧ CalmBetween lines a b

/-! ### Lines -/

theorem not_isBlank_of_isBoundary {line : DocLine} {rest : List DocLine}
    (h : isBoundary (line :: rest) = true) : line.isBlank = false := by
  simp only [isBoundary, Bool.and_eq_true, Bool.not_eq_true', List.isEmpty_eq_false_iff] at h
  rw [DocLine.isBlank, ← Bool.not_eq_true, ← strip_eq_nil_iff]
  exact h.1

/-- A boundary that is no index directive has an underline. -/
theorem exists_underline_of_isBoundary {header : DocLine} {rest : List DocLine}
    (h : isBoundary (header :: rest) = true)
    (hindex : startsWith (strip header.text) indexDirective = false) :
    ∃ underline ∈ rest.head?, isUnderline (strip underline.text) = true := by
  unfold isBoundary at h
  simp only [hindex, Bool.false_or, Bool.and_eq_true] at h
  cases rest with
  | nil => exact absurd h.2 Bool.false_ne_true
  | cons underline rest => exact ⟨underline, rfl, h.2⟩

theorem boundaryDistance_le (lines : List DocLine) : boundaryDistance lines ≤ lines.length := by
  induction lines with
  | nil => exact Nat.le_refl 0
  | cons line rest ih =>
      unfold boundaryDistance
      split
      · exact Nat.zero_le _
      · exact Nat.succ_le_succ ih

/-- A boundary is what the distance leads to, unless that is the end. -/
theorem isBoundary_drop_boundaryDistance {lines : List DocLine}
    (h : boundaryDistance lines < lines.length) :
    isBoundary (lines.drop (boundaryDistance lines)) = true := by
  induction lines with
  | nil => cases h
  | cons line rest ih =>
      unfold boundaryDistance at h ⊢
      split
      next hboundary => exact hboundary
      next hcalm =>
        rw [if_neg hcalm, List.length_cons] at h
        exact ih (Nat.lt_of_succ_lt_succ h)

/-- There is no boundary before that. -/
theorem isBoundary_drop_of_lt_boundaryDistance {lines : List DocLine} {i : Nat}
    (h : i < boundaryDistance lines) : isBoundary (lines.drop i) = false := by
  induction lines generalizing i with
  | nil => cases h
  | cons line rest ih =>
      unfold boundaryDistance at h
      split at h
      · cases h
      next hcalm =>
        cases i with
        | zero => exact eq_false_of_ne_true hcalm
        | succ i => exact ih (Nat.lt_of_succ_lt_succ h)

theorem isBoundary_drop_of_lt_paragraphLength {lines : List DocLine} {i : Nat}
    (h : i < paragraphLength lines) : isBoundary (lines.drop i) = false := by
  induction lines generalizing i with
  | nil => cases h
  | cons line rest ih =>
      unfold paragraphLength at h
      split at h
      · cases h
      next hcalm =>
        simp only [Bool.or_eq_true, not_or, Bool.not_eq_true] at hcalm
        cases i with
        | zero => exact hcalm.2
        | succ i => exact ih (Nat.lt_of_succ_lt_succ h)

/-- A blank line is no boundary. -/
theorem isBoundary_drop_of_lt_blanks {lines : List DocLine} {i : Nat}
    (h : i < (lines.takeWhile DocLine.isBlank).length) : isBoundary (lines.drop i) = false := by
  induction lines generalizing i with
  | nil => cases h
  | cons line rest ih =>
      by_cases hblank : line.isBlank = true
      · rw [List.takeWhile_cons_of_pos hblank] at h
        cases i with
        | zero =>
            refine eq_false_of_ne_true fun hboundary => ?_
            rw [not_isBlank_of_isBoundary hboundary] at hblank
            cases hblank
        | succ i => exact ih (Nat.lt_of_succ_lt_succ h)
      · rw [List.takeWhile_cons_of_neg hblank] at h
        cases h

/-- Trimming cuts lines off at both ends. -/
theorem trim_isInfix (p : Paragraph) : Paragraph.trim p <:+: p := by
  refine (List.dropWhile_suffix _).isInfix.trans ?_
  rw [← List.reverse_infix, List.reverse_reverse]
  exact (List.dropWhile_suffix _).isInfix

/-- A part of consecutive lines consists of consecutive lines. -/
theorem IsCalmPiece.of_isInfix {lines : List DocLine} {p q : Paragraph} (h : IsCalmPiece lines p)
    (hpart : q <:+: p) : IsCalmPiece lines q := by
  obtain ⟨a, b, hab, hb, rfl, hcalm⟩ := h
  obtain ⟨s, t, hst⟩ := hpart
  have hlength := congrArg List.length hst
  simp only [List.extract_eq_take_drop, List.length_append, List.length_take,
    List.length_drop] at hlength
  refine ⟨a + s.length, a + s.length + q.length, by omega, by omega, ?_,
    fun i hi hi' => hcalm i (by omega) (by omega)⟩
  have hq : q = ((lines.extract a b).drop s.length).take q.length := by
    rw [← hst, List.append_assoc, List.drop_left, List.take_left]
  rw [hq]
  simp only [List.extract_eq_take_drop, List.drop_take, List.drop_drop, List.take_take]
  congr 1
  simp only [List.length_take, List.length_drop]
  omega

/-! ### Readers -/

namespace LineReader

theorem position_le (r : LineReader) : r.position ≤ r.lines.length := by
  simp [position, lines]

/-- Ahead are the lines from the position on. -/
theorem rest_eq_drop (r : LineReader) : r.rest = r.lines.drop r.position := by
  simp [position, lines]

theorem position_take (r : LineReader) (n : Nat) :
    (r.take n).2.position = r.position + min n r.rest.length := by
  simp [take, position, Nat.add_comm]

/-- What is read are the lines between the two positions. -/
theorem take_eq_extract (r : LineReader) (n : Nat) :
    (r.take n).1 = r.lines.extract r.position (r.take n).2.position := by
  rw [position_take, List.extract_eq_take_drop, ← rest_eq_drop, Nat.add_sub_cancel_left,
    ← List.take_eq_take_min, take]

/-- The line in front of the position. -/
theorem previous_eq (r : LineReader) :
    r.previous = if 0 < r.position then r.lines[r.position - 1]? else none := by
  obtain ⟨seen, rest⟩ := r
  cases seen with
  | nil => rfl
  | cons line seen => simp [previous, position, lines]

theorem boundaryAt_position (r : LineReader) :
    BoundaryAt r.lines r.position ↔ isBoundary r.rest = true := by
  rw [BoundaryAt, ← rest_eq_drop]

/-- The reader has gone forward among the same lines, over no boundary. -/
structure PassesTo (r r' : LineReader) : Prop where
  lines_eq : r'.lines = r.lines
  le : r.position ≤ r'.position
  calm : CalmBetween r.lines r.position r'.position

theorem PassesTo.refl (r : LineReader) : r.PassesTo r :=
  ⟨rfl, Nat.le_refl _, fun _ h h' => absurd h (Nat.not_le_of_lt h')⟩

theorem PassesTo.trans {r r' r'' : LineReader} (h : r.PassesTo r') (h' : r'.PassesTo r'') :
    r.PassesTo r'' where
  lines_eq := h'.lines_eq.trans h.lines_eq
  le := Nat.le_trans h.le h'.le
  calm := fun i hi hi' => by
    by_cases hfirst : i < r'.position
    · exact h.calm i hi hfirst
    · rw [← h.lines_eq]
      exact h'.calm i (Nat.le_of_not_lt hfirst) hi'

/-- Reading lines that are no boundaries. -/
theorem take_passes {r : LineReader} {n : Nat}
    (h : ∀ i < n, isBoundary (r.rest.drop i) = false) : r.PassesTo (r.take n).2 where
  lines_eq := lines_take r n
  le := by rw [position_take]; omega
  calm := fun i hi hi' hboundary => by
    rw [position_take] at hi'
    have hahead := h (i - r.position) (by omega)
    rw [rest_eq_drop, List.drop_drop, Nat.add_sub_cancel' hi] at hahead
    rw [BoundaryAt, hahead] at hboundary
    cases hboundary

/-- What was read on the way. -/
theorem PassesTo.isCalmPiece {r : LineReader} {n : Nat} (h : r.PassesTo (r.take n).2) :
    IsCalmPiece r.lines (r.take n).1 :=
  ⟨r.position, (r.take n).2.position, h.le, by
    rw [← h.lines_eq]; exact position_le _, take_eq_extract r n, h.calm⟩

theorem skipBlank_passes (r : LineReader) : r.PassesTo r.skipBlank :=
  take_passes fun _ h => isBoundary_drop_of_lt_blanks h

theorem readParagraph_passes (r : LineReader) : r.PassesTo r.readParagraph.2 :=
  take_passes fun _ h => isBoundary_drop_of_lt_paragraphLength h

/-- A boundary is ahead, or nothing. -/
def AtMark (r : LineReader) : Prop := r.rest = [] ∨ isBoundary r.rest = true

theorem atMark_iff (r : LineReader) : r.AtMark ↔ DocSummary.hasParagraph r = false := by
  rw [AtMark, DocSummary.hasParagraph, atEnd, atBoundary]
  cases r.rest <;> simp

/-- A boundary is no blank line, so there is none to pass over. -/
theorem AtMark.skipBlank_eq {r : LineReader} (h : r.AtMark) : r.skipBlank = r := by
  refine skipBlank_eq_self fun line hline => ?_
  cases hrest : r.rest with
  | nil => simp [hrest] at hline
  | cons header rest =>
      rw [hrest] at hline
      cases hline
      rw [AtMark, hrest] at h
      exact not_isBlank_of_isBoundary (h.resolve_left (List.cons_ne_nil _ _))

theorem atMark_readUntilBoundary (r : LineReader) : r.readUntilBoundary.2.AtMark := by
  unfold AtMark
  rw [readUntilBoundary, rest_take]
  cases hrest : r.rest with
  | nil => exact .inl rfl
  | cons header rest =>
      rw [chunkLength, List.drop_succ_cons]
      rcases Nat.lt_or_ge (boundaryDistance rest) rest.length with hlt | hge
      · exact .inr (isBoundary_drop_boundaryDistance hlt)
      · exact .inl (List.drop_eq_nil_of_le hge)

/-- A chunk that does not begin at a boundary holds none. -/
theorem readUntilBoundary_passes {r : LineReader} (h : isBoundary r.rest = false) :
    r.PassesTo r.readUntilBoundary.2 := by
  refine take_passes fun i hi => ?_
  cases hrest : r.rest with
  | nil => simp [isBoundary]
  | cons header rest =>
      cases i with
      | zero => rw [← hrest]; exact h
      | succ i =>
          rw [hrest, chunkLength] at hi
          rw [List.drop_succ_cons]
          exact isBoundary_drop_of_lt_boundaryDistance (Nat.lt_of_succ_lt_succ hi)

/-- A chunk ends at the next boundary. -/
theorem readUntilBoundary_endsAt {r : LineReader} (h : r.rest ≠ []) :
    EndsAt r.lines r.position r.readUntilBoundary.2.position := by
  have hposition := position_take r (chunkLength r.rest)
  have hlines : r.readUntilBoundary.2.lines = r.lines := lines_take r _
  have hlength : r.lines.length = r.position + r.rest.length := by simp [lines, position]
  rw [show (r.take (chunkLength r.rest)).2 = r.readUntilBoundary.2 from rfl] at hposition
  cases hrest : r.rest with
  | nil => exact absurd hrest h
  | cons header rest =>
      have hdistance := boundaryDistance_le rest
      rw [hrest, chunkLength, List.length_cons] at hposition
      rw [hrest, List.length_cons] at hlength
      refine ⟨by omega, by omega, fun hlt => ?_, fun i hi hi' hboundary => ?_⟩
      · rcases atMark_readUntilBoundary r with hend | hboundary
        · have hrest' := rest_eq_drop r.readUntilBoundary.2
          rw [hend, hlines, eq_comm, List.drop_eq_nil_iff] at hrest'
          omega
        · rwa [← boundaryAt_position, hlines] at hboundary
      · have hcalm : isBoundary (rest.drop (i - (r.position + 1))) = false :=
          isBoundary_drop_of_lt_boundaryDistance (by omega)
        have hdrop : rest = r.lines.drop (r.position + 1) := by
          rw [← List.drop_drop, ← rest_eq_drop, hrest, List.drop_one, List.tail_cons]
        rw [hdrop, List.drop_drop, Nat.add_sub_cancel' hi] at hcalm
        rw [BoundaryAt, hcalm] at hboundary
        cases hboundary

end LineReader

/-! ### The summary -/

namespace DocSummary

open LineReader

/-- The summary proper is read without passing a boundary. -/
theorem readProper_passes (r : LineReader) :
    r.PassesTo (readProper r).2 ∧ IsCalmPiece r.lines (readProper r).1 := by
  fun_induction readProper r with
  | case1 r paragraph next _ ih =>
      have hnext : r.PassesTo next := (readParagraph_passes r).trans (skipBlank_passes _)
      exact ⟨hnext.trans ih.1, hnext.lines_eq ▸ ih.2⟩
  | case2 r paragraph next _ =>
      exact ⟨readParagraph_passes r, (readParagraph_passes r).isCalmPiece⟩

/-- So is the extended summary; it ends at a boundary or at the end. -/
theorem readExtended_passes (r : LineReader) :
    r.PassesTo (readExtended r).2 ∧ (readExtended r).2.AtMark ∧
      ∀ p ∈ (readExtended r).1, IsCalmPiece r.lines p := by
  have hskip := skipBlank_passes r
  unfold readExtended
  dsimp only
  by_cases hmore : hasParagraph r.skipBlank = true
  · have hcalm : isBoundary r.skipBlank.rest = false := by
      simp only [hasParagraph, atBoundary, Bool.and_eq_true, Bool.not_eq_true'] at hmore
      exact hmore.2
    have hchunk := readUntilBoundary_passes hcalm
    rw [if_pos hmore]
    refine ⟨hskip.trans hchunk, atMark_readUntilBoundary _, fun p hp => ?_⟩
    split at hp
    · cases hp
    · cases hp
      rw [← hskip.lines_eq]
      exact hchunk.isCalmPiece.of_isInfix (trim_isInfix _)
  · rw [if_neg hmore]
    exact ⟨hskip, (atMark_iff _).2 (eq_false_of_ne_true hmore), by simp⟩

/-- Reading the summary passes no boundary, and goes on up to one or to the end. -/
theorem read_passes (r : LineReader) :
    r.PassesTo (read r).2 ∧ (read r).2.AtMark ∧
      ∀ s ∈ (read r).1, IsCalmPiece r.lines s.summary ∧
        ∀ p ∈ s.extended, IsCalmPiece r.lines p := by
  have hskip := skipBlank_passes r
  unfold read
  dsimp only
  by_cases hmore : hasParagraph r.skipBlank = true
  · obtain ⟨hproper, hsummary⟩ := readProper_passes r.skipBlank
    obtain ⟨hbehind, hmark, hextended⟩ := readExtended_passes (readProper r.skipBlank).2
    rw [if_pos hmore]
    refine ⟨(hskip.trans hproper).trans hbehind, hmark, fun s hs => ?_⟩
    cases hs
    refine ⟨hskip.lines_eq ▸ hsummary, fun p hp => ?_⟩
    rw [← (hskip.trans hproper).lines_eq]
    exact hextended p hp
  · rw [if_neg hmore]
    exact ⟨hskip, (atMark_iff _).2 (eq_false_of_ne_true hmore), by simp⟩

end DocSummary

end DocLint
