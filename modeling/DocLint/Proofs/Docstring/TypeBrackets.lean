import DocLint.Proofs.Docstring.TypeSegments

/-!
# Brackets in type declarations

A text is balanced if no bracket is closed that is not open and none is left open; the shapes of the
brackets do not count.  In a balanced declaration every segment begins and ends outside brackets.

* `IsNested`: every bracket is closed by the one of its shape.
* `depthFrom_eq_openAt`: where no bracket closes too much, the depth is the number of open brackets.
* `Segment.IsSound.balanced`: the value of a segment is balanced if the declaration is.
-/

namespace DocLint

open Bytes

namespace TypeList

/-- No bracket is closed that is not open, and all are closed in the end. -/
structure IsBalanced (s : Bytes) : Prop where
  nonneg : ∀ k ≤ s.length, 0 ≤ openAt s k
  settled : openAt s s.length = 0

instance (s : Bytes) : Decidable (IsBalanced s) :=
  decidable_of_iff ((∀ k < s.length + 1, 0 ≤ openAt s k) ∧ openAt s s.length = 0)
    ⟨fun ⟨hnonneg, hsettled⟩ => ⟨fun k hk => hnonneg k (Nat.lt_succ_of_le hk), hsettled⟩,
      fun h => ⟨fun k hk => h.nonneg k (Nat.le_of_lt_succ hk), h.settled⟩⟩

/-! ### Counting along a text -/

theorem openAt_append_of_le {s : Bytes} {k : Nat} (h : k ≤ s.length) (t : Bytes) :
    openAt (s ++ t) k = openAt s k := by
  rw [openAt, openAt, List.take_append_of_le_length h]

theorem openAt_append_add (s t : Bytes) (k : Nat) :
    openAt (s ++ t) (s.length + k) = openAt s s.length + openAt t k := by
  simp only [openAt, List.take_length_add_append, List.take_length, List.countP_append]
  omega

theorem openAt_length_append (s t : Bytes) :
    openAt (s ++ t) (s ++ t).length = openAt s s.length + openAt t t.length := by
  rw [List.length_append, openAt_append_add]

theorem openAt_length_take {s : Bytes} {k : Nat} (hk : k ≤ s.length) :
    openAt (s.take k) (s.take k).length = openAt s k := by
  rw [List.length_take, Nat.min_eq_left hk, openAt, List.take_take, Nat.min_self, openAt]

/-- A text in front of which all brackets are closed is counted on its own. -/
theorem openAt_add {text : Bytes} {k : Nat} (hzero : openAt text k = 0) (j : Nat) :
    openAt text (k + j) = openAt (text.drop k) j := by
  rw [openAt] at hzero
  simp only [openAt, List.take_add, List.countP_append]
  omega

/-- Whitespace has no brackets. -/
theorem openAt_of_isBlank {s : Bytes} (h : isBlank s = true) (k : Nat) : openAt s k = 0 := by
  have hnone : ∀ c ∈ s.take k, isOpenBracket c = false ∧ isCloseBracket c = false := fun c hc =>
    no_bracket_of_space (List.all_eq_true.1 h c (List.mem_of_mem_take hc))
  rw [openAt, List.countP_eq_zero.2 fun c hc => by simp [(hnone c hc).1],
    List.countP_eq_zero.2 fun c hc => by simp [(hnone c hc).2]]
  rfl

theorem openAt_separator (separator : Separator) :
    openAt separator.text separator.text.length = 0 := by
  cases separator <;> rfl

/-- As long as no bracket closes that is not open, the depth is the number of open brackets. -/
theorem depthFrom_eq_openAt {s : Bytes} {k : Nat} (hk : k ≤ s.length)
    (h : ∀ j ≤ k, 0 ≤ openAt s j) : (depthFrom 0 (s.take k) : Int) = openAt s k := by
  induction k with
  | zero => rfl
  | succ k ih =>
      have hget := List.getElem?_eq_getElem hk
      have hnext := h (k + 1) (Nat.le_refl _)
      have ih := ih (Nat.le_of_succ_le hk) fun j hj => h j (Nat.le_succ_of_le hj)
      rw [List.take_add_one, hget, Option.toList_some, depthFrom_append, depthFrom_cons,
        depthFrom_nil, depthAfter]
      generalize s[k] = c at hget
      by_cases hopen : isOpenBracket c = true
      · rw [if_pos hopen, openAt_of_open hget hopen, ← ih]
        rfl
      · rw [if_neg hopen]
        rw [Bool.not_eq_true] at hopen
        by_cases hclose : isCloseBracket c = true
        · rw [openAt_of_close hget hopen hclose] at hnext ⊢
          rw [if_pos hclose]
          omega
        · rw [if_neg hclose, openAt_of_other hget hopen (eq_false_of_ne_true hclose), ih]

/-! ### Nesting -/

/-- The bracket that closes the given one. -/
def partner (c : UInt8) : UInt8 :=
  if c = byte '(' then byte ')' else if c = byte '[' then byte ']' else byte '\x7d'

/-- The brackets to be closed behind one byte, the next one first. -/
def pendingAfter (pending : Bytes) (c : UInt8) : Option Bytes :=
  if isOpenBracket c then some (partner c :: pending)
  else if isCloseBracket c then
    if pending.head? = some c then some pending.tail else none
  else some pending

/-- Every bracket is closed by its partner. -/
def IsNested (s : Bytes) : Prop := s.foldlM pendingAfter [] = some []

instance (s : Bytes) : Decidable (IsNested s) :=
  inferInstanceAs (Decidable (s.foldlM pendingAfter [] = some []))

theorem length_pendingAfter {pending next : Bytes} {c : UInt8}
    (h : pendingAfter pending c = some next) :
    (next.length : Int) = pending.length + openAt [c] 1 := by
  have hget : [c][0]? = some c := rfl
  have hzero : openAt [c] 0 = 0 := rfl
  rw [pendingAfter] at h
  by_cases hopen : isOpenBracket c = true
  · rw [if_pos hopen, Option.some.injEq] at h
    rw [openAt_of_open hget hopen, ← h, List.length_cons]
    omega
  · rw [if_neg hopen] at h
    rw [Bool.not_eq_true] at hopen
    by_cases hclose : isCloseBracket c = true
    · rw [if_pos hclose, Option.ite_none_right_eq_some, Option.some.injEq] at h
      obtain ⟨hhead, rfl⟩ := h
      have hpos : 0 < pending.length := List.length_pos_of_mem (List.mem_of_head? hhead)
      rw [openAt_of_close hget hopen hclose, List.length_tail]
      omega
    · rw [if_neg hclose, Option.some.injEq] at h
      rw [openAt_of_other hget hopen (eq_false_of_ne_true hclose), ← h]
      omega

/-- As many brackets are to be closed as are open. -/
theorem length_pending {s pending next : Bytes} (h : s.foldlM pendingAfter pending = some next) :
    (next.length : Int) = pending.length + openAt s s.length := by
  induction s generalizing pending with
  | nil =>
      obtain rfl := Option.some.inj h
      simp [openAt]
  | cons c s ih =>
      rw [List.foldlM_cons, Option.bind_eq_bind, Option.bind_eq_some_iff] at h
      obtain ⟨middle, hmiddle, h⟩ := h
      have hcount := openAt_length_append [c] s
      rw [List.singleton_append] at hcount
      rw [ih h, length_pendingAfter hmiddle, hcount, Int.add_assoc]
      rfl

theorem foldlM_pendingAfter_append {s t pending next : Bytes} :
    (s ++ t).foldlM pendingAfter pending = some next ↔
      ∃ middle, s.foldlM pendingAfter pending = some middle ∧
        t.foldlM pendingAfter middle = some next := by
  rw [List.foldlM_append, Option.bind_eq_bind, Option.bind_eq_some_iff]

/-- The brackets to be closed behind the first `k` bytes of a nested text. -/
theorem IsNested.exists_pending {s : Bytes} (h : IsNested s) {k : Nat} (hk : k ≤ s.length) :
    ∃ pending, (s.take k).foldlM pendingAfter [] = some pending ∧
      (pending.length : Int) = openAt s k := by
  rw [IsNested, ← List.take_append_drop k s] at h
  obtain ⟨pending, hpending, -⟩ := foldlM_pendingAfter_append.1 h
  refine ⟨pending, hpending, ?_⟩
  rw [length_pending hpending, openAt_length_take hk]
  exact Int.zero_add _

theorem IsNested.isBalanced {s : Bytes} (h : IsNested s) : IsBalanced s := by
  refine ⟨fun k hk => ?_, ?_⟩
  · obtain ⟨pending, -, hcount⟩ := h.exists_pending hk
    exact hcount ▸ Int.natCast_nonneg _
  · have hcount := length_pending h
    exact (hcount.trans (Int.zero_add _)).symm

/-- A part of a nested text is nested if no brackets are open in front of it and behind it. -/
theorem IsNested.of_append {s front behind : Bytes} (h : IsNested (front ++ (s ++ behind)))
    (hfront : openAt front front.length = 0) (hs : openAt s s.length = 0) : IsNested s := by
  obtain ⟨before, hbefore, h⟩ := foldlM_pendingAfter_append.1 h
  obtain ⟨after, hafter, -⟩ := foldlM_pendingAfter_append.1 h
  have hnone {pending : Bytes} (hlength : (pending.length : Int) = 0) : pending = [] :=
    List.eq_nil_of_length_eq_zero (Int.natCast_eq_zero.1 hlength)
  obtain rfl : before = [] := hnone (by rw [length_pending hbefore, hfront]; rfl)
  obtain rfl : after = [] := hnone (by rw [length_pending hafter, hs]; rfl)
  exact hafter

/-- The bracket that is to be closed last remains, or it is closed by this byte. -/
theorem pendingAfter_concat {pending next : Bytes} {c d : UInt8}
    (h : pendingAfter (pending ++ [d]) c = some next) :
    (∃ front, next = front ++ [d]) ∨ next = [] ∧ c = d := by
  rw [pendingAfter] at h
  split at h
  · obtain rfl := Option.some.inj h
    exact .inl ⟨partner c :: pending, rfl⟩
  · split at h
    · rw [Option.ite_none_right_eq_some, Option.some.injEq] at h
      obtain ⟨hhead, rfl⟩ := h
      cases pending with
      | nil => exact .inr ⟨rfl, (Option.some.inj hhead).symm⟩
      | cons p pending => exact .inl ⟨pending, rfl⟩
    · obtain rfl := Option.some.inj h
      exact .inl ⟨pending, rfl⟩

/-- Outside brackets of a balanced text the depth is zero. -/
theorem IsBalanced.depthFrom_eq_zero {s : Bytes} (h : IsBalanced s) {k : Nat} (hk : k ≤ s.length)
    (houtside : openAt s k = 0) : depthFrom 0 (s.take k) = 0 := by
  have hdepth := depthFrom_eq_openAt hk fun j hj => h.nonneg j (hj.trans hk)
  rw [houtside] at hdepth
  exact Int.natCast_eq_zero.1 hdepth

/-! ### Segments -/

namespace Segment

theorem openAt_text (s : Segment) (hbefore : isBlank s.before = true) {j : Nat}
    (hj : j ≤ s.value.length) (rest : Bytes) :
    openAt (s.text ++ rest) (s.before.length + j) = openAt s.value j := by
  rw [text, List.append_assoc, openAt_append_add, openAt_of_isBlank hbefore, Int.zero_add,
    List.append_assoc, openAt_append_of_le hj]

theorem openAt_length_text (s : Segment) (hbefore : isBlank s.before = true)
    (hbehind : isBlank s.behind = true) :
    openAt s.text s.text.length = openAt s.value s.value.length := by
  rw [text, openAt_length_append, openAt_length_append, openAt_length_append,
    openAt_of_isBlank hbefore, openAt_of_isBlank hbehind, openAt_separator]
  omega

namespace IsSound

variable {text rest : Bytes} {k : Nat} {s : Segment} (h : s.IsSound text k)
  (hrest : text.drop k = s.text ++ rest) (hstart : openAt text k = 0)
include h hrest hstart

/-- Brackets of a value are counted in it as in the declaration. -/
theorem openAt_value {j : Nat} (hj : j ≤ s.value.length) :
    openAt text (k + s.before.length + j) = openAt s.value j := by
  rw [Nat.add_assoc, openAt_add hstart, hrest, s.openAt_text h.before_blank hj]

/-- If the declaration is balanced, all brackets of a value are its own, and the next segment begins
outside brackets. -/
theorem balanced (hk : k ≤ text.length) (hbalanced : IsBalanced text) :
    IsBalanced s.value ∧ openAt text (k + s.text.length) = 0 := by
  have hlength : k + s.text.length ≤ text.length := by
    have hdrop := congrArg List.length hrest
    rw [List.length_drop, List.length_append] at hdrop
    omega
  have hstop : openAt text (k + s.text.length) = openAt s.value s.value.length := by
    rw [openAt_add hstart, hrest, openAt_append_of_le (Nat.le_refl _),
      s.openAt_length_text h.before_blank h.behind_blank]
  have hnonneg : ∀ j ≤ s.value.length, 0 ≤ openAt s.value j := by
    intro j hj
    rw [← h.openAt_value hrest hstart hj]
    refine hbalanced.nonneg _ ?_
    rw [Segment.text, List.length_append, List.length_append] at hlength
    omega
  have hsettled : openAt s.value s.value.length = 0 := by
    rcases h.closed with hclosed | hend
    · rw [← depthFrom_eq_openAt (Nat.le_refl _) hnonneg, List.take_length, hclosed]
      rfl
    · rw [← hstop, hend, hbalanced.settled]
  exact ⟨⟨hnonneg, hsettled⟩, hstop.trans hsettled⟩

end IsSound

end Segment

end TypeList

end DocLint
