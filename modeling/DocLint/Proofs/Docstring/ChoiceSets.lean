import DocLint.Proofs.Docstring.TypeSplitting

/-!
# Choice sets

A choice set is a group in braces.  One that stands first in its segment is a type of its own.  One
with words in front of it is left among them: the scan of a segment counts its brace as a bracket and
does not stop.

* `ChoiceSetBetween`, `IsChoiceSet`: groups in braces.
* `StandsFirst`: where a segment begins, said of the declaration alone.
* `Splitting.standsFirst_of_isolates`, `Splitting.isolates_of_standsFirst`: where a choice set is a
  segment of its own.
* `ofText_choiceSets`: choice sets are their own types exactly where each stands first.
* `ofText_wordsBeforeBrace`: a choice set that is not.
-/

namespace DocLint

open Bytes

namespace TypeList

/-- A brace outside brackets stands behind the first `i` bytes and is closed by the byte in front of
`j`. -/
structure ChoiceSetBetween (text : Bytes) (i j : Nat) : Prop where
  lt : i < j
  brace : text[i]? = some (byte '\x7b')
  outside : openAt text i = 0
  inside : ∀ m, i < m → m < j → openAt text m ≠ 0
  settled : openAt text j = 0

/-- The text is one choice set. -/
def IsChoiceSet (s : Bytes) : Prop := ChoiceSetBetween s 0 s.length

/-- The bytes between two offsets are whitespace. -/
def IsBlankBetween (text : Bytes) (j k : Nat) : Prop :=
  ∀ i, j ≤ i → i < k → ∃ c, text[i]? = some c ∧ isSpace c = true

/-- Where a segment ends: at the beginning of the text, behind a separator, or behind a choice set. -/
inductive EndsSegment (text : Bytes) : Nat → Prop
  | start : EndsSegment text 0
  | comma {j : Nat} (h : text[j]? = some (byte ',')) : EndsSegment text (j + 1)
  | word {j : Nat} (h : WordAt text j) : EndsSegment text (j + 2)
  | choiceSet {i j : Nat} (h : ChoiceSetBetween text i j) : EndsSegment text j

/-- Between the end of a segment and the offset `k` there is whitespace only. -/
def StandsFirst (text : Bytes) (k : Nat) : Prop :=
  ∃ j ≤ k, EndsSegment text j ∧ IsBlankBetween text j k

section Counting

variable {text : Bytes} {j k : Nat}

/-- Whitespace leaves the number of open brackets as it is. -/
theorem openAt_of_isBlankBetween (hjk : j ≤ k) (h : IsBlankBetween text j k) :
    openAt text k = openAt text j := by
  induction k, hjk using Nat.le_induction with
  | base => rfl
  | succ k hjk ih =>
      obtain ⟨c, hget, hspace⟩ := h k hjk (Nat.lt_succ_self k)
      obtain ⟨hopen, hclose⟩ := no_bracket_of_space hspace
      rw [openAt_of_other hget hopen hclose]
      exact ih fun i hji hik => h i hji (Nat.lt_succ_of_lt hik)

theorem openAt_comma (h : text[j]? = some (byte ',')) : openAt text (j + 1) = openAt text j :=
  openAt_of_other h (by decide) (by decide)

theorem getElem?_of_wordAt (h : WordAt text j) :
    text[j]? = some (byte 'o') ∧ text[j + 1]? = some (byte 'r') := by
  obtain ⟨r, hr⟩ := startsWith_word_iff.1 h.1
  constructor
  · rw [← List.head?_drop, hr]
    rfl
  · rw [← List.getElem?_drop, hr]
    rfl

theorem openAt_word (h : WordAt text j) : openAt text (j + 2) = openAt text j := by
  obtain ⟨hfirst, hsecond⟩ := getElem?_of_wordAt h
  rw [openAt_of_other hsecond (by decide) (by decide), openAt_of_other hfirst (by decide) (by decide)]

/-- In front of a segment no word begins. -/
theorem StandsFirst.ne_o (h : StandsFirst text (k + 1)) : text[k]? ≠ some (byte 'o') := by
  intro ho
  obtain ⟨j, hle, hends, hblank⟩ := h
  rcases Nat.lt_or_eq_of_le hle with hlt | rfl
  · obtain ⟨c, hget, hspace⟩ := hblank k (Nat.le_of_lt_succ hlt) (Nat.lt_succ_self k)
    rw [ho, Option.some.injEq] at hget
    subst hget
    revert hspace
    decide
  · cases hends with
    | comma h =>
        rw [ho] at h
        exact absurd (Option.some.inj h) (by decide)
    | word h =>
        rw [(getElem?_of_wordAt h).2] at ho
        exact absurd (Option.some.inj ho) (by decide)
    | @choiceSet i _ h =>
        have hsettled := h.settled
        rw [openAt_of_other ho (by decide) (by decide)] at hsettled
        rcases Nat.lt_or_eq_of_le (Nat.le_of_lt_succ h.lt) with hlt | rfl
        · exact h.inside k hlt (Nat.lt_succ_self k) hsettled
        · rw [h.brace] at ho
          exact absurd (Option.some.inj ho) (by decide)

theorem isBlankBetween_self (text : Bytes) (k : Nat) : IsBlankBetween text k k :=
  fun _ hle hlt => absurd hlt (Nat.not_lt_of_le hle)

theorem isBlankBetween_of_drop {piece rest : Bytes} (h : text.drop j = piece ++ rest)
    (hblank : isBlank piece = true) : IsBlankBetween text j (j + piece.length) := by
  intro i hji hik
  obtain ⟨m, rfl⟩ := Nat.exists_eq_add_of_le hji
  have hm : m < piece.length := Nat.lt_of_add_lt_add_left hik
  refine ⟨piece[m], ?_, List.all_eq_true.1 hblank _ (List.getElem_mem hm)⟩
  rw [← List.getElem?_drop, h, List.getElem?_append_left hm, List.getElem?_eq_getElem hm]

/-- Whitespace in front does not matter. -/
theorem StandsFirst.trans (h : StandsFirst text j) (hjk : j ≤ k) (hblank : IsBlankBetween text j k) :
    StandsFirst text k := by
  obtain ⟨e, hle, hends, hfront⟩ := h
  refine ⟨e, hle.trans hjk, hends, fun i hei hik => ?_⟩
  rcases Nat.lt_or_ge i j with hij | hji
  · exact hfront i hei hij
  · exact hblank i hji hik

theorem EndsSegment.standsFirst (h : EndsSegment text k) : StandsFirst text k :=
  ⟨k, Nat.le_refl k, h, isBlankBetween_self text k⟩

end Counting

/-! ### Segments -/

namespace Segment.IsSound

variable {text rest : Bytes} {k : Nat} {s : Segment} (h : s.IsSound text k)
  (hrest : text.drop k = s.text ++ rest) (hstart : openAt text k = 0)
include hrest

theorem drop_before : text.drop (k + s.before.length) =
    s.value ++ (s.behind ++ (s.separator.text ++ rest)) := by
  rw [← List.drop_drop, hrest, Segment.text]
  simp only [List.append_assoc, List.drop_left]

theorem getElem?_value {j : Nat} (hj : j < s.value.length) :
    text[k + s.before.length + j]? = s.value[j]? := by
  rw [← List.getElem?_drop, drop_before hrest, List.getElem?_append_left hj]

include h hstart

/-- A balanced segment that begins with a brace is a choice set. -/
theorem isChoiceSet (hbalanced : IsBalanced s.value)
    (hbrace : s.value.head? = some (byte '\x7b')) :
    IsChoiceSet s.value ∧ ChoiceSetBetween text (k + s.before.length)
      (k + s.before.length + s.value.length) := by
  have hpos : 0 < s.value.length := List.length_pos_of_mem (List.mem_of_head? hbrace)
  have hget : s.value[0]? = some (byte '\x7b') := List.head?_eq_getElem?.symm.trans hbrace
  have hinside : ∀ m, 0 < m → m < s.value.length → openAt s.value m ≠ 0 := by
    intro m hm hlt houtside
    exact h.enclosed hbrace m hlt hm (hbalanced.depthFrom_eq_zero hlt.le houtside)
  have hcount (j : Nat) (hj : j ≤ s.value.length) := h.openAt_value hrest hstart hj
  refine ⟨⟨hpos, hget, rfl, hinside, hbalanced.settled⟩, ?_⟩
  refine ⟨Nat.lt_add_of_pos_right hpos, ?_, ?_, ?_, ?_⟩
  · rw [← hget, ← getElem?_value hrest hpos, Nat.add_zero]
  · exact hcount 0 (Nat.zero_le _)
  · intro m him hmj
    obtain ⟨i, rfl⟩ := Nat.exists_eq_add_of_le him.le
    rw [hcount i (by omega)]
    exact hinside i (by omega) (by omega)
  · rw [hcount _ (Nat.le_refl _), hbalanced.settled]

/-- The next segment stands first as well. -/
theorem standsFirst_next (hbalanced : IsBalanced s.value) :
    StandsFirst text (k + s.text.length) ∨ k + s.text.length = text.length := by
  have hlength : k + s.text.length = k + (s.before.length + (s.value.length + s.behind.length)) +
      s.separator.text.length := by
    simp only [Segment.text, List.length_append]
    omega
  have hbehind : text.drop (k + s.before.length + s.value.length) =
      s.behind ++ (s.separator.text ++ rest) := by
    rw [← List.drop_drop, drop_before hrest, List.drop_left]
  have hblank := isBlankBetween_of_drop hbehind h.behind_blank
  have hseparator : text.drop (k + (s.before.length + (s.value.length + s.behind.length))) =
      s.separator.text ++ rest := by
    rw [← Nat.add_assoc, ← Nat.add_assoc, ← List.drop_drop, hbehind, List.drop_left]
  rw [Nat.add_assoc k, Nat.add_assoc, Nat.add_assoc s.before.length] at hblank
  rw [hlength]
  cases hcase : s.separator with
  | none =>
      have hfree := h.unseparated hcase
      rw [hlength, hcase] at hfree
      refine hfree.imp_left fun hbrace => ?_
      obtain ⟨-, hset⟩ := h.isChoiceSet hrest hstart hbalanced hbrace
      rw [Nat.add_assoc] at hset
      exact (EndsSegment.choiceSet hset).standsFirst.trans (by omega) hblank
  | comma =>
      have hget : text[k + (s.before.length + (s.value.length + s.behind.length))]? =
          some (byte ',') := by
        rw [← List.head?_drop, hseparator, hcase]
        rfl
      exact .inl (EndsSegment.comma hget).standsFirst
  | word => exact .inl (EndsSegment.word (h.word hcase)).standsFirst

/-- If every brace outside brackets stands first, a segment that begins with none has none. -/
theorem openAt_ne_zero (hbalanced : IsBalanced s.value)
    (hfirst : StandsFirst text (k + s.before.length))
    (hplain : s.value.head? ≠ some (byte '\x7b'))
    (hall : ∀ i, text[i]? = some (byte '\x7b') → openAt text i = 0 → StandsFirst text i)
    (j : Nat) (hbrace : s.value[j]? = some (byte '\x7b')) : openAt s.value j ≠ 0 := by
  generalize hb : k + s.before.length = b at hfirst
  have hcount {i : Nat} (hi : i ≤ s.value.length) : openAt text (b + i) = openAt s.value i :=
    hb ▸ h.openAt_value hrest hstart hi
  have hget {i : Nat} (hi : i < s.value.length) : text[b + i]? = s.value[i]? :=
    hb ▸ getElem?_value hrest hi
  have hundivided {i : Nat} (hi : i < s.value.length) (houtside : openAt text (b + i) = 0) :
      ¬ SeparatorAt text (b + i) := by
    have hzero : openAt s.value i = 0 := (hcount hi.le).symm.trans houtside
    exact hb ▸ h.undivided hplain i hi (hbalanced.depthFrom_eq_zero hi.le hzero)
  -- A first brace outside brackets has nothing in front of it that ends a segment.
  induction j using Nat.strong_induction_on with
  | _ j ih =>
  intro hzero
  have hlt : j < s.value.length := (List.getElem?_eq_some_iff.1 hbrace).1
  have houtside : openAt text (b + j) = 0 := (hcount hlt.le).trans hzero
  obtain ⟨e, hle, hends, hblank⟩ := hall (b + j) ((hget hlt).trans hbrace) houtside
  have hend : openAt text e = 0 := (openAt_of_isBlankBetween hle hblank).symm.trans houtside
  rcases Nat.lt_or_ge b e with hinside | hfront
  · cases hends with
    | start => exact absurd hinside (Nat.not_lt_zero b)
    | @comma p hcomma =>
        obtain ⟨i, rfl⟩ := Nat.exists_eq_add_of_le (Nat.le_of_lt_succ hinside)
        exact hundivided (by omega) (openAt_comma hcomma ▸ hend) (.inl hcomma)
    | @word p hword =>
        rcases Nat.lt_or_ge p b with hstraddles | hbp
        · obtain rfl : b = p + 1 := by omega
          exact hfirst.ne_o (getElem?_of_wordAt hword).1
        · obtain ⟨i, rfl⟩ := Nat.exists_eq_add_of_le hbp
          exact hundivided (by omega) (openAt_word hword ▸ hend) (.inr hword)
    | @choiceSet i _ hset =>
        rcases Nat.lt_or_ge i b with hib | hbi
        · exact hset.inside b hib hinside (hcount (Nat.zero_le _))
        · obtain ⟨m, rfl⟩ := Nat.exists_eq_add_of_le hbi
          have hmj : m < j := by
            have hlt := hset.lt
            omega
          have hm : m < s.value.length := hmj.trans hlt
          exact ih m hmj ((hget hm).symm.trans hset.brace) ((hcount hm.le).symm.trans hset.outside)
  · have hpos : 0 < j := by
      refine Nat.pos_of_ne_zero fun hj => hplain ?_
      rw [List.head?_eq_getElem?, ← hj, hbrace]
    obtain ⟨c, hc, hspace⟩ := hblank b hfront (Nat.lt_add_of_pos_right hpos)
    have hhead : (strip s.value).head? = some c := by
      rw [h.strip_eq, List.head?_eq_getElem?, ← hget (hpos.trans hlt), Nat.add_zero, hc]
    exact Bool.eq_false_iff.1 (isSpace_head?_strip hhead) hspace

end Segment.IsSound

section Placed

variable {text rest : Bytes} {k : Nat} {segments : List Segment}

/-- Each segment stands first that is not empty. -/
theorem standsFirst_of_mem_placed (htext : text.drop k = segments.flatMap Segment.text ++ rest)
    (hsound : ∀ place ∈ placed k segments, place.2.IsSound text place.1)
    (hvalues : ∀ place ∈ placed k segments,
      openAt text place.1 = 0 ∧ IsBalanced place.2.value)
    (hfirst : StandsFirst text k ∨ k = text.length) :
    ∀ place ∈ placed k segments, place.2.value ≠ [] →
      StandsFirst text (place.1 + place.2.before.length) := by
  induction segments generalizing k with
  | nil => nofun
  | cons s segments ih =>
      obtain ⟨hdrop, hnext⟩ := drop_behind_segment htext
      have hs := hsound (k, s) List.mem_cons_self
      obtain ⟨hstart, hbalanced⟩ := hvalues (k, s) List.mem_cons_self
      intro place hplace hne
      rcases List.mem_cons.1 hplace with rfl | hplace
      · rcases hfirst with hfirst | rfl
        · rw [Segment.text, List.append_assoc] at hdrop
          exact hfirst.trans (Nat.le_add_right _ _) (isBlankBetween_of_drop hdrop hs.before_blank)
        · rw [List.drop_length] at hdrop
          simp [Segment.text, hne] at hdrop
      · refine ih hnext (fun p hp => hsound p (List.mem_cons_of_mem _ hp))
          (fun p hp => hvalues p (List.mem_cons_of_mem _ hp)) ?_ place hplace hne
        exact hs.standsFirst_next hdrop hstart hbalanced

/-- A brace belongs to the value of a segment. -/
theorem exists_mem_placed (htext : text.drop k = segments.flatMap Segment.text ++ rest)
    (hsound : ∀ place ∈ placed k segments, place.2.IsSound text place.1)
    (hrest : isBlank rest = true) {i : Nat} (hki : k ≤ i)
    (hbrace : text[i]? = some (byte '\x7b')) :
    ∃ place ∈ placed k segments, ∃ j, i = place.1 + place.2.before.length + j ∧
      place.2.value[j]? = some (byte '\x7b') := by
  have hblank {s : Bytes} (h : isBlank s = true) : byte '\x7b' ∉ s := fun hmem =>
    absurd (List.all_eq_true.1 h _ hmem) (by decide)
  obtain ⟨m, rfl⟩ := Nat.exists_eq_add_of_le hki
  clear hki
  rw [← List.getElem?_drop] at hbrace
  induction segments generalizing k m with
  | nil =>
      rw [htext, List.flatMap_nil, List.nil_append] at hbrace
      exact absurd (List.mem_of_getElem? hbrace) (hblank hrest)
  | cons s segments ih =>
      obtain ⟨hdrop, hnext⟩ := drop_behind_segment htext
      have hs := hsound (k, s) List.mem_cons_self
      rcases Nat.lt_or_ge m s.text.length with hinside | hbehind
      · refine ⟨(k, s), List.mem_cons_self, ?_⟩
        rw [hdrop, List.getElem?_append_left hinside, Segment.text] at hbrace
        rcases Nat.lt_or_ge m s.before.length with hm | hm
        · rw [List.getElem?_append_left hm] at hbrace
          exact absurd (List.mem_of_getElem? hbrace) (hblank hs.before_blank)
        · obtain ⟨j, rfl⟩ := Nat.exists_eq_add_of_le hm
          rw [List.getElem?_append_right hm, Nat.add_sub_cancel_left] at hbrace
          refine ⟨j, (Nat.add_assoc _ _ _).symm, ?_⟩
          rcases Nat.lt_or_ge j s.value.length with hj | hj
          · rwa [List.getElem?_append_left hj] at hbrace
          · rw [List.getElem?_append_right hj] at hbrace
            have hseparator : byte '\x7b' ∉ s.separator.text := by cases s.separator <;> decide
            exact (List.mem_append.1 (List.mem_of_getElem? hbrace)).elim
              (fun hmem => absurd hmem (hblank hs.behind_blank)) fun hmem => absurd hmem hseparator
      · obtain ⟨m, rfl⟩ := Nat.exists_eq_add_of_le hbehind
        obtain ⟨place, hplace, j, hj, hvalue⟩ :=
          ih hnext (fun p hp => hsound p (List.mem_cons_of_mem _ hp)) m
            (by rwa [List.getElem?_drop, Nat.add_assoc, ← List.getElem?_drop])
        exact ⟨place, List.mem_cons_of_mem _ hplace, j, by omega, hvalue⟩

end Placed

/-- A brace outside brackets begins a choice set that is the whole text. -/
def IsolatesChoiceSet (s : Bytes) : Prop :=
  (∀ j, s[j]? = some (byte '\x7b') → openAt s j ≠ 0) ∨ IsChoiceSet s

/-- The brace that closes a choice set is its last byte. -/
theorem IsChoiceSet.getLast?_eq {s : Bytes} (h : IsChoiceSet s) (hnested : IsNested s) :
    s.getLast? = some (byte '\x7d') := by
  -- As long as the choice set goes on, its own brace is to be closed last.
  have hpending (j : Nat) (hj : j < s.length) :
      (∃ front, (s.take (j + 1)).foldlM pendingAfter [] = some (front ++ [byte '\x7d'])) ∨
        (s.take (j + 1)).foldlM pendingAfter [] = some [] ∧ s[j]? = some (byte '\x7d') := by
    induction j with
    | zero =>
        obtain ⟨r, rfl⟩ := List.head?_eq_some_iff.1 (List.head?_eq_getElem?.trans h.brace)
        exact .inl ⟨[], rfl⟩
    | succ j ih =>
        obtain ⟨pending, hpending, hcount⟩ := hnested.exists_pending (Nat.le_of_lt hj)
        have hopen := h.inside (j + 1) (Nat.succ_pos j) hj
        have hget := List.getElem?_eq_getElem hj
        obtain ⟨next, hnext, -⟩ := hnested.exists_pending (Nat.succ_le_of_lt hj)
        rw [List.take_add_one, hget, Option.toList_some] at hnext ⊢
        rw [hnext]
        obtain ⟨middle, hmiddle, hlast⟩ := foldlM_pendingAfter_append.1 hnext
        rcases ih (Nat.lt_of_succ_lt hj) with ⟨front, hfront⟩ | ⟨hclosed, -⟩
        · obtain rfl := Option.some.inj (hmiddle.symm.trans hfront)
          simp only [List.foldlM_cons, List.foldlM_nil, bind_pure] at hlast
          rcases pendingAfter_concat hlast with ⟨front, rfl⟩ | ⟨rfl, hc⟩
          · exact .inl ⟨front, rfl⟩
          · exact .inr ⟨rfl, congrArg some hc⟩
        · obtain rfl := Option.some.inj (hpending.symm.trans hclosed)
          exact absurd hcount.symm hopen
  have hlast : s.length - 1 < s.length := Nat.sub_lt h.lt Nat.one_pos
  have hclosed := hpending _ hlast
  rw [Nat.sub_add_cancel h.lt, List.take_length, hnested, ← List.getLast?_eq_getElem?] at hclosed
  rcases hclosed with ⟨front, hfront⟩ | ⟨-, hbrace⟩
  · exact absurd (Option.some.inj hfront).symm (List.concat_ne_nil _ _)
  · exact hbrace

namespace Splitting

variable {text : Bytes} (splitting : Splitting text) {origin : Position}
  (hbalanced : IsBalanced text)
include hbalanced

/-- A segment that begins with a brace is one choice set. -/
theorem isChoiceSet : ∀ place ∈ placed 0 splitting.segments,
    place.2.value.head? = some (byte '\x7b') →
      IsChoiceSet place.2.value ∧ (IsNested text → IsNested place.2.value) := by
  intro place hplace hbrace
  obtain ⟨rest, hrest⟩ := splitting.exists_drop place hplace
  obtain ⟨hstart, hvalue⟩ := splitting.segment_balanced hbalanced place hplace
  have hsound := splitting.sound place hplace
  refine ⟨(hsound.isChoiceSet hrest hstart hvalue hbrace).1, fun hnested => ?_⟩
  have hbehind := Segment.IsSound.drop_before hrest
  have hle : place.1 + place.2.before.length ≤ text.length := by
    by_contra hlt
    rw [List.drop_of_length_le (Nat.le_of_not_le hlt)] at hbehind
    rw [(List.append_eq_nil_iff.1 hbehind.symm).1] at hbrace
    cases hbrace
  rw [← List.take_append_drop (place.1 + place.2.before.length) text, hbehind] at hnested
  refine hnested.of_append ?_ hvalue.settled
  rw [openAt_length_take hle]
  exact hsound.openAt_value hrest hstart (Nat.zero_le _)

/-- Each segment stands first that is not empty. -/
theorem standsFirst : ∀ place ∈ placed 0 splitting.segments, place.2.value ≠ [] →
    StandsFirst text (place.1 + place.2.before.length) :=
  standsFirst_of_mem_placed (k := 0) splitting.text_eq.symm splitting.sound
    (splitting.segment_balanced hbalanced) (.inl EndsSegment.start.standsFirst)

theorem standsFirst_of_isolates
    (h : ∀ type ∈ splitting.types origin, IsolatesChoiceSet type.value) (i : Nat)
    (hbrace : text[i]? = some (byte '\x7b')) (houtside : openAt text i = 0) :
    StandsFirst text i := by
  obtain ⟨place, hplace, j, rfl, hvalue⟩ := exists_mem_placed (k := 0) splitting.text_eq.symm
    splitting.sound splitting.rest_blank (Nat.zero_le i) hbrace
  obtain ⟨rest, hrest⟩ := splitting.exists_drop place hplace
  obtain ⟨hstart, -⟩ := splitting.segment_balanced hbalanced place hplace
  have hmem := List.mem_of_getElem? hvalue
  have hlt : j < place.2.value.length := (List.getElem?_eq_some_iff.1 hvalue).1
  have hzero : openAt place.2.value j = 0 := by
    rw [← (splitting.sound place hplace).openAt_value hrest hstart hlt.le, houtside]
  have hne : place.2.value ≠ [] := List.ne_nil_of_mem hmem
  have hword : place.2.value ≠ optionalWord := by
    intro hword
    rw [hword] at hmem
    revert hmem
    decide
  have htype : place.2.fragment origin place.1 ∈ splitting.types origin :=
    splitting.mem_types_iff.2 ⟨place, hplace, ⟨hne, hword⟩, rfl⟩
  rcases h _ htype with hnone | hset
  · exact absurd hzero (hnone j hvalue)
  · -- Inside a choice set nothing is outside brackets.
    obtain rfl : j = 0 := by
      by_contra hpos
      exact hset.inside j (Nat.pos_of_ne_zero hpos) hlt hzero
    exact splitting.standsFirst hbalanced place hplace hne

theorem isolates_of_standsFirst
    (h : ∀ i, text[i]? = some (byte '\x7b') → openAt text i = 0 → StandsFirst text i) :
    ∀ type ∈ splitting.types origin, IsolatesChoiceSet type.value := by
  intro type htype
  obtain ⟨place, hplace, ⟨hne, -⟩, rfl⟩ := splitting.mem_types_iff.1 htype
  by_cases hbrace : place.2.value.head? = some (byte '\x7b')
  · exact .inr (splitting.isChoiceSet hbalanced place hplace hbrace).1
  · obtain ⟨rest, hrest⟩ := splitting.exists_drop place hplace
    obtain ⟨hstart, hvalue⟩ := splitting.segment_balanced hbalanced place hplace
    have hfirst := splitting.standsFirst hbalanced place hplace hne
    exact .inl ((splitting.sound place hplace).openAt_ne_zero hrest hstart hvalue hfirst hbrace h)

end Splitting

/-- In a balanced declaration every choice set is a type of its own if and only if each stands first
in its segment.  A type that begins with a brace is always one choice set. -/
theorem ofText_choiceSets (text : Bytes) (origin : Position) (count : UInt32)
    (hbalanced : IsBalanced text) :
    ((∀ type ∈ (ofText text origin count).types, IsolatesChoiceSet type.value) ↔
      ∀ k, text[k]? = some (byte '\x7b') → openAt text k = 0 → StandsFirst text k) ∧
    ∀ type ∈ (ofText text origin count).types, type.value.head? = some (byte '\x7b') →
      IsChoiceSet type.value ∧ (IsNested text → type.value.getLast? = some (byte '\x7d')) := by
  obtain ⟨splitting, htypes, -⟩ := exists_splitting text origin count
  rw [htypes]
  refine ⟨⟨splitting.standsFirst_of_isolates hbalanced, splitting.isolates_of_standsFirst hbalanced⟩,
    fun type htype hbrace => ?_⟩
  obtain ⟨place, hplace, -, rfl⟩ := splitting.mem_types_iff.1 htype
  obtain ⟨hset, hnested⟩ := splitting.isChoiceSet hbalanced place hplace hbrace
  exact ⟨hset, fun h => hset.getLast?_eq (hnested h)⟩

/-- Choice sets behind a comma and behind the word, with another one inside of one. -/
theorem ofText_choiceSets_first :
    IsBalanced (ascii "\x7b'a', \x7b1\x7d\x7d, x or \x7b2\x7d") ∧
      ∀ type ∈ (ofText (ascii "\x7b'a', \x7b1\x7d\x7d, x or \x7b2\x7d") ⟨1, 1⟩ 0).types,
        IsolatesChoiceSet type.value := by
  have hbalanced : IsBalanced (ascii "\x7b'a', \x7b1\x7d\x7d, x or \x7b2\x7d") := by decide
  refine ⟨hbalanced, (ofText_choiceSets _ _ _ hbalanced).1.2 fun k hbrace houtside => ?_⟩
  have hplaces : ∀ k < (ascii "\x7b'a', \x7b1\x7d\x7d, x or \x7b2\x7d").length,
      (ascii "\x7b'a', \x7b1\x7d\x7d, x or \x7b2\x7d")[k]? = some (byte '\x7b') →
        openAt (ascii "\x7b'a', \x7b1\x7d\x7d, x or \x7b2\x7d") k = 0 → k = 0 ∨ k = 17 := by
    decide
  rcases hplaces k (List.getElem?_eq_some_iff.1 hbrace).1 hbrace houtside with rfl | rfl
  · exact EndsSegment.start.standsFirst
  · have hends : EndsSegment (ascii "\x7b'a', \x7b1\x7d\x7d, x or \x7b2\x7d") 16 :=
      .word (by decide)
    refine hends.standsFirst.trans (by decide) fun i hle hlt => ?_
    obtain rfl : i = 16 := by omega
    exact ⟨byte ' ', by decide, by decide⟩

/-- With words in front of it a choice set is no type of its own. -/
theorem ofText_wordsBeforeBrace :
    (IsNested (ascii "list of \x7b'a', 'b'\x7d") ∧ IsBalanced (ascii "list of \x7b'a', 'b'\x7d")) ∧
      ∃ type ∈ (ofText (ascii "list of \x7b'a', 'b'\x7d") ⟨1, 1⟩ 0).types,
        ¬ IsolatesChoiceSet type.value := by
  have hnested : IsNested (ascii "list of \x7b'a', 'b'\x7d") := by decide
  refine ⟨⟨hnested, hnested.isBalanced⟩, ?_⟩
  have hmem : ascii "list of \x7b'a', 'b'\x7d" ∈
      (ofText (ascii "list of \x7b'a', 'b'\x7d") ⟨1, 1⟩ 0).types.map Fragment.value := by
    have hread := (Declared.ofText_print (d := ⟨ascii "list of \x7b'a', 'b'\x7d", [], 0⟩)
      (by decide) ⟨1, 1⟩).1
    rw [show Declared.print ⟨ascii "list of \x7b'a', 'b'\x7d", [], 0⟩ =
      ascii "list of \x7b'a', 'b'\x7d" by decide] at hread
    rw [hread]
    exact List.mem_cons_self
  obtain ⟨type, htype, hvalue⟩ := List.mem_map.1 hmem
  refine ⟨type, htype, ?_⟩
  rw [hvalue]
  rintro (hnone | hset)
  · exact hnone 8 (by decide) (by decide)
  · exact absurd hset.brace (by decide)

end TypeList

end DocLint
