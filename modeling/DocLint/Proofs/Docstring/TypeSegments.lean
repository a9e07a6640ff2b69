import DocLint.Proofs.Printing.Types

/-!
# The segments of a type declaration

A type declaration is cut into segments, with a comma or the word `or` behind each of them.  A segment
that begins with a brace is a choice set and ends where the brace is closed, so that no separator has
to follow it; any other one ends in front of the next separator outside brackets.  Brackets are
counted without regard to their shapes, and one that closes nothing does not count.

* `depthFrom`: the bracket depth behind a text.
* `plainLength_stops`, `groupLength_stops`: where the scans of a segment end.
* `Segment.IsSound`, `exists_segment`: what a segment is like and what stands behind it, and that one
  is read.
-/

namespace DocLint

open Bytes

namespace TypeCursor

/-- The cursor in front of the `k`-th byte of a text. -/
def ofOffset (text : Bytes) (k : Nat) : TypeCursor := ⟨(text.take k).reverse, text.drop k⟩

variable {text : Bytes} {k : Nat}

@[simp] theorem rest_ofOffset (text : Bytes) (k : Nat) : (ofOffset text k).rest = text.drop k := rfl

@[simp] theorem head?_seen_ofOffset (text : Bytes) (k : Nat) :
    (ofOffset text k).seen.head? = (text.take k).getLast? := List.head?_reverse

theorem offset_ofOffset (h : k ≤ text.length) : (ofOffset text k).offset = k := by
  rw [offset, ofOffset, List.length_reverse, List.length_take, Nat.min_eq_left h]

theorem skip_ofOffset (text : Bytes) (k n : Nat) :
    (ofOffset text k).skip n = ofOffset text (k + n) := by
  simp only [skip, ofOffset, List.take_add, List.reverse_append, List.drop_drop]

end TypeCursor

namespace TypeList

/-! ### Bracket depth -/

/-- The bracket depth behind one byte. -/
def depthAfter (depth : Nat) (c : UInt8) : Nat :=
  if isOpenBracket c then depth + 1 else if isCloseBracket c then depth - 1 else depth

/-- The bracket depth behind a text. -/
def depthFrom (depth : Nat) (s : Bytes) : Nat := s.foldl depthAfter depth

@[simp] theorem depthFrom_nil (depth : Nat) : depthFrom depth [] = depth := rfl

@[simp] theorem depthFrom_cons (depth : Nat) (c : UInt8) (s : Bytes) :
    depthFrom depth (c :: s) = depthFrom (depthAfter depth c) s := rfl

theorem depthFrom_append (depth : Nat) (s t : Bytes) :
    depthFrom depth (s ++ t) = depthFrom (depthFrom depth s) t := List.foldl_append

/-- A byte that is no bracket leaves the depth as it is. -/
theorem depthAfter_of_other {c : UInt8} (hopen : isOpenBracket c = false)
    (hclose : isCloseBracket c = false) (depth : Nat) : depthAfter depth c = depth := by
  rw [depthAfter, hopen, hclose]
  rfl

/-- No bracket is whitespace. -/
theorem no_bracket_of_space {c : UInt8} (h : isSpace c = true) :
    isOpenBracket c = false ∧ isCloseBracket c = false := by
  rw [← Bool.not_eq_true, ← Bool.not_eq_true]
  constructor
  all_goals
    intro hbracket
    simp only [isOpenBracket, isCloseBracket, Bool.or_eq_true, beq_iff_eq] at hbracket
    rcases hbracket with (rfl | rfl) | rfl <;> revert h <;> decide

/-- Whitespace leaves the depth as it is. -/
theorem depthFrom_of_isBlank {s : Bytes} (h : isBlank s = true) (depth : Nat) :
    depthFrom depth s = depth := by
  induction s with
  | nil => rfl
  | cons c s ih =>
      simp only [isBlank, List.all_cons, Bool.and_eq_true] at h
      obtain ⟨hopen, hclose⟩ := no_bracket_of_space h.1
      rw [depthFrom_cons, depthAfter_of_other hopen hclose, ih h.2]

/-! ### Scans -/

/-- A comma or the word `or` stands behind the first `k` bytes. -/
def SeparatorAt (text : Bytes) (k : Nat) : Prop := text[k]? = some (byte ',') ∨ WordAt text k

theorem isConnective_iff {text : Bytes} {k : Nat} :
    isConnective (text.take k).getLast? (text.drop k) = true ↔ WordAt text k := by
  simp only [isConnective, WordAt, Bool.and_eq_true, List.drop_drop, and_assoc]

/-- The scan of a segment stops at a separator outside brackets, or goes on behind the next byte. -/
theorem plainLength_cons (depth : Nat) (last : Option UInt8) (c : UInt8) (r : Bytes) :
    plainLength depth last (c :: r) =
      if depth = 0 ∧ (c = byte ',' ∨ isConnective last (c :: r) = true) then 0
      else plainLength (depthAfter depth c) (some c) r + 1 := by
  -- Neither separator begins with a bracket.
  have hbracket : isOpenBracket c = true ∨ isCloseBracket c = true →
      ¬ (c = byte ',' ∨ isConnective last (c :: r) = true) := by
    rintro hc (rfl | hword)
    · revert hc
      decide
    · simp only [isConnective, Bool.and_eq_true, startsWith_word_iff] at hword
      obtain ⟨⟨⟨rest, hstart⟩, -⟩, -⟩ := hword
      obtain ⟨rfl, -⟩ := List.cons.inj hstart
      revert hc
      decide
  rw [plainLength, depthAfter]
  by_cases hopen : isOpenBracket c = true
  · rw [if_pos hopen, if_pos hopen, if_neg fun h => hbracket (.inl hopen) h.2]
  · rw [if_neg hopen, if_neg hopen]
    by_cases hclose : isCloseBracket c = true
    · rw [if_pos hclose, if_pos hclose, if_neg fun h => hbracket (.inr hclose) h.2]
    · rw [if_neg hclose, if_neg hclose]

/-- The scan of a segment passes over no separator outside brackets, and ends at one or with the
text. -/
theorem plainLength_stops {text : Bytes} {depth m : Nat} (hm : m ≤ text.length) :
    let n := plainLength depth (text.take m).getLast? (text.drop m)
    m + n ≤ text.length ∧
      (∀ j < n, depthFrom depth ((text.drop m).take j) = 0 → ¬ SeparatorAt text (m + j)) ∧
      (m + n = text.length ∨
        depthFrom depth ((text.drop m).take n) = 0 ∧ SeparatorAt text (m + n)) := by
  induction hrest : text.drop m generalizing m depth with
  | nil =>
      have hlength := List.drop_eq_nil_iff.1 hrest
      refine ⟨hm, fun j hj => absurd hj (Nat.not_lt_zero j), .inl (Nat.le_antisymm hm hlength)⟩
  | cons c r ih =>
      have hlt : m < text.length := by
        by_contra hge
        rw [List.drop_of_length_le (Nat.le_of_not_lt hge)] at hrest
        cases hrest
      have hget : text[m]? = some c := by rw [← List.head?_drop, hrest]; rfl
      have hnext : text.drop (m + 1) = r := by rw [← List.drop_drop, hrest]; rfl
      have hlast : (text.take (m + 1)).getLast? = some c := by
        rw [List.take_add_one, hget, Option.toList_some, List.getLast?_concat]
      have hseparator : c = byte ',' ∨ isConnective (text.take m).getLast? (c :: r) = true ↔
          SeparatorAt text m := by
        rw [← hrest, isConnective_iff, SeparatorAt, hget, Option.some.injEq]
      have ih := @ih (depthAfter depth c) (m + 1) hlt hnext
      rw [hlast] at ih
      rw [plainLength_cons]
      split
      next hstop =>
        exact ⟨hm, fun j hj => absurd hj (Nat.not_lt_zero j),
          .inr ⟨hstop.1, hseparator.1 hstop.2⟩⟩
      next hgo =>
        obtain ⟨hle, hinside, hend⟩ := ih
        dsimp only
        generalize plainLength (depthAfter depth c) (some c) r = n at hle hinside hend ⊢
        rw [show m + (n + 1) = m + 1 + n by omega, List.take_succ_cons, depthFrom_cons]
        refine ⟨hle, fun j hj hdepth => ?_, hend⟩
        cases j with
        | zero => exact fun hsep => hgo ⟨hdepth, hseparator.2 hsep⟩
        | succ j =>
            rw [show m + (j + 1) = m + 1 + j by omega]
            exact hinside j (by omega) hdepth

/-- The scan of a bracket group ends where the depth is back at zero, or with the text. -/
theorem groupLength_stops {depth : Nat} (hdepth : 0 < depth) (s : Bytes) :
    groupLength depth s ≤ s.length ∧
      (∀ j < groupLength depth s, depthFrom depth (s.take j) ≠ 0) ∧
      (groupLength depth s = s.length ∨ depthFrom depth (s.take (groupLength depth s)) = 0) := by
  induction s generalizing depth with
  | nil => exact ⟨Nat.le_refl 0, fun j hj => absurd hj (Nat.not_lt_zero j), .inl rfl⟩
  | cons c r ih =>
      have hstep : groupLength depth (c :: r) =
          if depthAfter depth c = 0 then 1 else groupLength (depthAfter depth c) r + 1 := by
        rw [groupLength, depthAfter]
        split
        · rw [if_neg (by omega)]
        · split
          · by_cases hlast : depth ≤ 1
            · rw [if_pos hlast, if_pos (by omega)]
            · rw [if_neg hlast, if_neg (by omega)]
          · rw [if_neg (by omega)]
      rw [hstep]
      split
      next hzero =>
        refine ⟨by simp, fun j hj => ?_, .inr hzero⟩
        obtain rfl : j = 0 := by omega
        exact Nat.ne_of_gt hdepth
      next hpos =>
        obtain ⟨hle, hinside, hend⟩ := ih (Nat.pos_of_ne_zero hpos)
        refine ⟨Nat.succ_le_succ hle, fun j hj => ?_, hend.imp_left (congrArg (· + 1))⟩
        cases j with
        | zero => exact Nat.ne_of_gt hdepth
        | succ j => exact hinside j (Nat.lt_of_succ_lt_succ hj)

/-- Where the first segment from the offset `m` on ends. -/
theorem segmentLength_stops {text : Bytes} {m : Nat} (hm : m < text.length) :
    let n := segmentLength (.ofOffset text m)
    m + n ≤ text.length ∧
      (m + n = text.length ∨ depthFrom 0 ((text.drop m).take n) = 0) ∧
      (text[m]? ≠ some (byte '\x7b') →
        (∀ j < n, depthFrom 0 ((text.drop m).take j) = 0 → ¬ SeparatorAt text (m + j)) ∧
          (m + n = text.length ∨ SeparatorAt text (m + n))) ∧
      (text[m]? = some (byte '\x7b') →
        0 < n ∧ ∀ j < n, 0 < j → depthFrom 0 ((text.drop m).take j) ≠ 0) := by
  have hhead : (TypeCursor.ofOffset text m).rest.head? = text[m]? := List.head?_drop
  rw [segmentLength, hhead, TypeCursor.head?_seen_ofOffset, TypeCursor.rest_ofOffset]
  split
  next hbrace =>
    obtain ⟨_, hget⟩ := List.getElem?_eq_some_iff.1 hbrace
    have hdrop := List.drop_eq_getElem_cons hm
    rw [hget] at hdrop
    obtain ⟨hle, hinside, hend⟩ := groupLength_stops Nat.one_pos (text.drop (m + 1))
    have hlength : groupLength 0 (text.drop m) = groupLength 1 (text.drop (m + 1)) + 1 := by
      rw [hdrop]
      rfl
    have htake (j : Nat) : depthFrom 0 ((text.drop m).take (j + 1)) =
        depthFrom 1 ((text.drop (m + 1)).take j) := by
      rw [hdrop]
      rfl
    rw [List.length_drop] at hle hend
    rw [hlength]
    refine ⟨by omega, hend.imp (by omega) fun h => (htake _).trans h, absurd hbrace,
      fun _ => ⟨Nat.succ_pos _, fun j hj hpos => ?_⟩⟩
    obtain ⟨i, rfl⟩ := Nat.exists_eq_succ_of_ne_zero (Nat.ne_of_gt hpos)
    rw [htake]
    exact hinside i (Nat.lt_of_succ_lt_succ hj)
  next hbrace =>
    obtain ⟨hle, hinside, hend⟩ := @plainLength_stops text 0 m hm.le
    exact ⟨hle, hend.imp_right And.left, fun _ => ⟨hinside, hend.imp_right And.right⟩,
      fun h => absurd h hbrace⟩

/-! ### Segments -/

/-- What may stand behind a segment. -/
inductive Separator
  | none
  | comma
  | word

def Separator.text : Separator → Bytes
  | none => []
  | comma => [byte ',']
  | word => ascii "or"

/-- A segment of a declaration, with the whitespace around it and the separator behind it. -/
structure Segment where
  before : Bytes
  value : Bytes
  behind : Bytes
  separator : Separator

namespace Segment

/-- All bytes of the segment. -/
def text (s : Segment) : Bytes := s.before ++ (s.value ++ (s.behind ++ s.separator.text))

/-- The segment is what a declaration has from the offset `k` on. -/
structure IsSound (text : Bytes) (k : Nat) (s : Segment) : Prop where
  before_blank : isBlank s.before = true
  strip_eq : strip s.value = s.value
  behind_blank : isBlank s.behind = true
  word : s.separator = .word →
    WordAt text (k + (s.before.length + (s.value.length + s.behind.length)))
  unseparated : s.separator = .none →
    s.value.head? = some (byte '\x7b') ∨ k + s.text.length = text.length
  /-- Outside brackets nothing divides a segment other than a choice set. -/
  undivided : s.value.head? ≠ some (byte '\x7b') → ∀ j < s.value.length,
    depthFrom 0 (s.value.take j) = 0 → ¬ SeparatorAt text (k + s.before.length + j)
  /-- A choice set goes on as long as its brace is open. -/
  enclosed : s.value.head? = some (byte '\x7b') → ∀ j < s.value.length, 0 < j →
    depthFrom 0 (s.value.take j) ≠ 0
  closed : depthFrom 0 s.value = 0 ∨ k + s.text.length = text.length

end Segment

theorem exists_separator (text : Bytes) (p : Nat) :
    ∃ separator : Separator, text.drop p = separator.text ++ text.drop (p + separator.text.length) ∧
      separatorLength (.ofOffset text p) = separator.text.length ∧
      (separator = .word → WordAt text p) ∧ (separator = .none → ¬ SeparatorAt text p) := by
  have hhead : (TypeCursor.ofOffset text p).rest.head? = text[p]? := List.head?_drop
  have hword : isConnective (TypeCursor.ofOffset text p).seen.head?
      (TypeCursor.ofOffset text p).rest = true ↔ WordAt text p := by
    rw [TypeCursor.head?_seen_ofOffset, TypeCursor.rest_ofOffset, isConnective_iff]
  rw [separatorLength, hhead]
  split
  next hcomma =>
    refine ⟨.comma, ?_, rfl, Separator.noConfusion, Separator.noConfusion⟩
    obtain ⟨hp, hget⟩ := List.getElem?_eq_some_iff.1 hcomma
    rw [List.drop_eq_getElem_cons hp, hget]
    rfl
  next hcomma =>
    split
    next hor =>
      refine ⟨.word, ?_, rfl, fun _ => hword.1 hor, Separator.noConfusion⟩
      obtain ⟨r, hr⟩ := startsWith_word_iff.1 (hword.1 hor).1
      rw [← List.drop_drop, hr]
      rfl
    next hor =>
      refine ⟨.none, rfl, rfl, Separator.noConfusion, fun _ hsep => ?_⟩
      exact hsep.elim hcomma fun h => hor (hword.2 h)

/-- No whitespace stands in front of a separator. -/
theorem leading_of_separatorAt {text : Bytes} {k : Nat} (h : SeparatorAt text k) :
    leading (text.drop k) = 0 := by
  rcases h with hcomma | hword
  · obtain ⟨hk, hget⟩ := List.getElem?_eq_some_iff.1 hcomma
    rw [List.drop_eq_getElem_cons hk, hget]
    rfl
  · obtain ⟨r, hr⟩ := startsWith_word_iff.1 hword.1
    rw [hr]
    rfl

/-- The whitespace that stands behind the first `k` bytes. -/
theorem exists_blank {text : Bytes} {k : Nat} (hk : k ≤ text.length) :
    ∃ gap, isBlank gap = true ∧ k + gap.length = k + leading (text.drop k) ∧
      text.drop k = gap ++ text.drop (k + leading (text.drop k)) ∧
      k + leading (text.drop k) ≤ text.length := by
  have hle := leading_le (text.drop k)
  rw [List.length_drop] at hle
  refine ⟨(text.drop k).takeWhile isSpace, List.all_takeWhile, rfl, ?_, by omega⟩
  rw [← List.drop_drop, drop_leading, takeWhile_append_stripStart]

/-- A text without whitespace in front has none in front of its first bytes. -/
theorem leading_take {s : Bytes} (h : leading s = 0) (n : Nat) : leading (s.take n) = 0 := by
  rw [leading] at h
  rw [leading, ← List.take_takeWhile, List.length_take, h, Nat.min_zero]

/-- What is read from a byte on that is no whitespace begins with that byte, stripped or not. -/
theorem exists_eq_strip_append_take {s : Bytes} (h : leading s = 0) (n : Nat) :
    (∃ trail, isBlank trail = true ∧ s.take n = strip (s.take n) ++ trail) ∧
      (strip (s.take n)).head? = (s.take n).head? := by
  have hstart : stripStart (s.take n) = s.take n := by
    rw [← drop_leading, leading_take h, List.drop_zero]
  obtain ⟨trail, htrail, hsplit⟩ := exists_eq_strip_append (s.take n)
  rw [hstart] at hsplit
  exact ⟨⟨trail, List.all_eq_true.2 htrail, hsplit⟩, by rw [head?_strip, hstart]⟩

/-- What is read of a segment is its value and whitespace behind that. -/
theorem exists_value {text : Bytes} {m : Nat} (hm : m < text.length)
    (hfirst : leading (text.drop m) = 0) :
    let n := segmentLength (.ofOffset text m)
    let value := strip ((text.drop m).take n)
    ∃ trail, isBlank trail = true ∧ text.drop m = value ++ (trail ++ text.drop (m + n)) ∧
      m + (value.length + trail.length) = m + n ∧ m + n ≤ text.length ∧
      (m + n = text.length ∨ depthFrom 0 value = 0) ∧
      (value.head? ≠ some (byte '\x7b') →
        (∀ j < value.length, depthFrom 0 (value.take j) = 0 → ¬ SeparatorAt text (m + j)) ∧
          (m + n = text.length ∨ SeparatorAt text (m + n))) ∧
      (value.head? = some (byte '\x7b') →
        ∀ j < value.length, 0 < j → depthFrom 0 (value.take j) ≠ 0) := by
  obtain ⟨hle, hclosed, hplain, hgroup⟩ := segmentLength_stops hm
  obtain ⟨⟨trail, htrail, hraw⟩, hhead⟩ :=
    exists_eq_strip_append_take hfirst (segmentLength (.ofOffset text m))
  dsimp only
  generalize segmentLength (.ofOffset text m) = n at *
  generalize strip ((text.drop m).take n) = value at *
  have hlength : value.length + trail.length = n := by
    have h := congrArg List.length hraw
    rw [List.length_take, List.length_drop, List.length_append] at h
    omega
  have htake {j : Nat} (hj : j < value.length) : (text.drop m).take j = value.take j := by
    rw [← List.take_append_of_le_length hj.le, ← hraw, List.take_take, Nat.min_eq_left (by omega)]
  have hbegins : 0 < n → value.head? = text[m]? := fun hpos => by
    rw [hhead, List.head?_take, if_neg (Nat.ne_of_gt hpos), List.head?_drop]
  have hbrace : value.head? = some (byte '\x7b') ↔ text[m]? = some (byte '\x7b') := by
    refine ⟨fun h => ?_, fun h => (hbegins (hgroup h).1).trans h⟩
    rw [← h, hbegins]
    have hne : value ≠ [] := fun hnil => by rw [hnil] at h; cases h
    have hpos := List.length_pos_iff.2 hne
    omega
  refine ⟨trail, htrail, ?_, by omega, hle, ?_, fun h => ?_, fun h j hj => ?_⟩
  · rw [← List.append_assoc, ← hraw, ← List.drop_drop, List.take_append_drop]
  · refine hclosed.imp_right fun h => ?_
    rwa [hraw, depthFrom_append, depthFrom_of_isBlank htrail] at h
  · obtain ⟨hinside, hend⟩ := hplain (hbrace.not.1 h)
    refine ⟨fun j hj => ?_, hend⟩
    rw [← htake hj]
    exact hinside j (by omega)
  · rw [← htake hj]
    exact (hgroup (hbrace.1 h)).2 j (by omega)

/-- A round of the splitting passes over a segment, whitespace and a separator. -/
theorem afterSegment_ofOffset (text : Bytes) (m : Nat) :
    let behind := m + segmentLength (.ofOffset text m)
    let stop := behind + leading (text.drop behind)
    afterSegment (.ofOffset text m) =
      .ofOffset text (stop + separatorLength (.ofOffset text stop)) := by
  simp only [afterSegment, TypeCursor.skipBlank, TypeCursor.skip_ofOffset, TypeCursor.rest_ofOffset]

/-- The segment that is read from the offset `k` on, if there is more than whitespace. -/
theorem exists_segment {text : Bytes} {k m : Nat} (hk : k + leading (text.drop k) = m)
    (hm : m < text.length) :
    ∃ s : Segment, s.IsSound text k ∧ k + s.before.length = m ∧
      s.value = strip ((text.drop m).take (segmentLength (.ofOffset text m))) ∧
      text.drop k = s.text ++ text.drop (k + s.text.length) ∧ k + s.text.length ≤ text.length ∧
      afterSegment (.ofOffset text m) = .ofOffset text (k + s.text.length) := by
  have hfirst : leading (text.drop m) = 0 := by
    rw [← hk, ← List.drop_drop]
    exact leading_skipBlank ⟨[], text.drop k⟩
  obtain ⟨trail, htrail, hdrop, hlength, hle, hclosed, hplain, hgroup⟩ := exists_value hm hfirst
  have hafter := afterSegment_ofOffset text m
  have hstrip := strip_strip ((text.drop m).take (segmentLength (.ofOffset text m)))
  dsimp only at hafter
  generalize strip ((text.drop m).take (segmentLength (.ofOffset text m))) = value at *
  generalize m + segmentLength (.ofOffset text m) = e at *
  obtain ⟨before, hbefore, hbeforeLength, hfront, -⟩ := @exists_blank text k (by omega)
  obtain ⟨gap, hgap, hgapLength, hbehind, hple⟩ := exists_blank hle
  rw [hk] at hbeforeLength hfront
  generalize hp : e + leading (text.drop e) = p at *
  obtain ⟨separator, hseparator, hseparatorLength, hword, hnone⟩ := exists_separator text p
  have hstop : k + (Segment.text ⟨before, value, trail ++ gap, separator⟩).length =
      p + separator.text.length := by
    simp only [Segment.text, List.length_append]
    omega
  have hsize : p + separator.text.length ≤ text.length := by
    have h := congrArg List.length hseparator
    rw [List.length_append, List.length_drop, List.length_drop] at h
    omega
  -- A segment that ends with the text has no separator.
  have hend : e = text.length → p + separator.text.length = text.length := by omega
  have hblank : isBlank (trail ++ gap) = true := by
    rw [isBlank, List.all_append, ← isBlank, htrail, ← isBlank, hgap]
    rfl
  have hplace : k + (before.length + (value.length + (trail ++ gap).length)) = p := by
    rw [List.length_append]
    omega
  have hunseparated : separator = .none →
      value.head? = some (byte '\x7b') ∨ p + separator.text.length = text.length := by
    intro hcase
    by_cases hbrace : value.head? = some (byte '\x7b')
    · exact .inl hbrace
    · rcases (hplain hbrace).2 with hlast | hseparatorAt
      · exact .inr (hend hlast)
      · -- A separator right behind the segment would have been read.
        rw [leading_of_separatorAt hseparatorAt, Nat.add_zero] at hp
        exact absurd (hp ▸ hseparatorAt) (hnone hcase)
  refine ⟨⟨before, value, trail ++ gap, separator⟩, ?_, hbeforeLength, rfl, ?_, hstop.le.trans hsize,
    by rw [hafter, hseparatorLength, hstop]⟩
  · refine ⟨hbefore, hstrip, hblank, fun h => ?_, fun h => ?_, fun h => ?_, hgroup, ?_⟩
    · rw [hplace]
      exact hword h
    · rw [hstop]
      exact hunseparated h
    · rw [hbeforeLength]
      exact (hplain h).1
    · rw [hstop]
      exact hclosed.symm.imp_right hend
  · rw [hstop, Segment.text, hfront, hdrop, hbehind, hseparator]
    simp only [List.append_assoc]

end TypeList

end DocLint
