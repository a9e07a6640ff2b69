import DocLint.Text.Bytes
import Mathlib.Data.List.Basic

/-!
# The pieces and the lines of a text

A text is cut at the occurrences of a byte, and its lines are what lies between its newlines: no
piece holds a separator, and there is one piece more than there are separators.

* `splitOn_append_cons`: a separator takes a text apart into the pieces on either side.
* `splitOn_join`: pieces without separators are the pieces of the text that they make up.
* `lines_append`: the last line of a text and the first line of what follows it are one line.
* `lines_join`: lines without newlines are the lines of the text that they make up.
-/

namespace DocLint

namespace Bytes

/-! ### Pieces -/

section Pieces

variable {b : UInt8}

@[simp] theorem splitOn_nil (b : UInt8) : splitOn b [] = [[]] := rfl

@[simp] theorem splitOn_cons_self (b : UInt8) (r : Bytes) :
    splitOn b (b :: r) = [] :: splitOn b r := by
  simp [splitOn, splitWhere]

theorem splitOn_ne_nil (b : UInt8) (s : Bytes) : splitOn b s ≠ [] := splitWhere_ne_nil _ s

/-- Any other byte belongs to the first piece. -/
theorem splitOn_cons_of_ne {c : UInt8} (h : c ≠ b) {r first : Bytes} {rest : List Bytes}
    (hr : splitOn b r = first :: rest) : splitOn b (c :: r) = (c :: first) :: rest := by
  unfold splitOn at hr ⊢
  rw [splitWhere, if_neg (by simpa using h), hr]

theorem not_mem_of_mem_splitOn {s piece : Bytes} (h : piece ∈ splitOn b s) : b ∉ piece := by
  induction s generalizing piece with
  | nil =>
      rw [splitOn_nil, List.mem_singleton] at h
      simp [h]
  | cons c r ih =>
      by_cases hc : c = b
      · subst hc
        rw [splitOn_cons_self, List.mem_cons] at h
        rcases h with rfl | h
        · simp
        · exact ih h
      · obtain ⟨first, rest, hr⟩ := List.exists_cons_of_ne_nil (splitOn_ne_nil b r)
        rw [splitOn_cons_of_ne hc hr, List.mem_cons] at h
        rcases h with rfl | h
        · have hfirst : b ∉ first := ih (by simp [hr])
          simp [hfirst, Ne.symm hc]
        · exact ih (by simp [hr, h])

/-- A text without separators is one piece. -/
theorem splitOn_eq_singleton {s : Bytes} (h : b ∉ s) : splitOn b s = [s] := by
  unfold splitOn
  induction s with
  | nil => rfl
  | cons d r ih =>
      rw [List.mem_cons, not_or] at h
      rw [splitWhere, if_neg (by simpa using Ne.symm h.1), ih h.2]

/-- A separator takes a text apart into the pieces on either side. -/
theorem splitOn_append_cons (b : UInt8) (s t : Bytes) :
    splitOn b (s ++ b :: t) = splitOn b s ++ splitOn b t := by
  induction s with
  | nil => exact splitOn_cons_self b t
  | cons c s ih =>
      by_cases hc : c = b
      · subst hc
        rw [List.cons_append, splitOn_cons_self, ih, splitOn_cons_self, List.cons_append]
      · obtain ⟨first, rest, hs⟩ := List.exists_cons_of_ne_nil (splitOn_ne_nil b s)
        rw [hs, List.cons_append] at ih
        rw [List.cons_append, splitOn_cons_of_ne hc ih, splitOn_cons_of_ne hc hs, List.cons_append]

/-- Pieces one after the other are joined by one more separator. -/
theorem join_append (b : UInt8) {front back : List Bytes} (hfront : front ≠ []) (hback : back ≠ []) :
    join [b] (front ++ back) = join [b] front ++ b :: join [b] back := by
  obtain ⟨next, back, rfl⟩ := List.exists_cons_of_ne_nil hback
  induction front with
  | nil => contradiction
  | cons piece front ih =>
      cases front with
      | nil => simp [join]
      | cons second front =>
          have hcons (pieces : List Bytes) : join [b] (piece :: second :: pieces) =
              piece ++ b :: join [b] (second :: pieces) := by
            simp [join]
          have hrest := ih (List.cons_ne_nil second front)
          rw [List.cons_append] at hrest
          rw [List.cons_append, List.cons_append, hcons, hrest, hcons, List.append_assoc,
            List.cons_append]

/-- Pieces without separators are the pieces of the text that they make up. -/
theorem splitOn_join {pieces : List Bytes} (hne : pieces ≠ []) (h : ∀ piece ∈ pieces, b ∉ piece) :
    splitOn b (join [b] pieces) = pieces := by
  induction pieces with
  | nil => contradiction
  | cons piece rest ih =>
      have hpiece := splitOn_eq_singleton (h piece List.mem_cons_self)
      by_cases hrest : rest = []
      · subst hrest
        simpa [join] using hpiece
      · have hsplit := ih hrest fun p hp => h p (List.mem_cons_of_mem piece hp)
        have hjoin := join_append b (List.cons_ne_nil piece []) hrest
        rw [List.singleton_append] at hjoin
        have hsingle : join [b] [piece] = piece := by simp [join]
        rw [hjoin, hsingle, splitOn_append_cons, hpiece, hsplit, List.singleton_append]

end Pieces

/-! ### Lines -/

@[simp] theorem lines_nil : lines [] = [[]] := rfl

@[simp] theorem lines_newline_cons (r : Bytes) : lines (newline :: r) = [] :: lines r :=
  splitOn_cons_self newline r

theorem lines_ne_nil (s : Bytes) : lines s ≠ [] := splitOn_ne_nil newline s

/-- Any other byte belongs to the first line. -/
theorem lines_cons_of_ne {c : UInt8} (h : c ≠ newline) {r first : Bytes} {rest : List Bytes}
    (hr : lines r = first :: rest) : lines (c :: r) = (c :: first) :: rest :=
  splitOn_cons_of_ne h hr

theorem newline_not_mem_of_mem_lines {s line : Bytes} (h : line ∈ lines s) : newline ∉ line :=
  not_mem_of_mem_splitOn h

/-- The last line of a text and the first line of what follows it are one line. -/
theorem lines_append (s t : Bytes) {front back : List Bytes} {last first : Bytes}
    (hs : lines s = front ++ [last]) (ht : lines t = first :: back) :
    lines (s ++ t) = front ++ (last ++ first) :: back := by
  induction s generalizing front last with
  | nil =>
      rw [lines_nil] at hs
      obtain ⟨rfl, hlast⟩ := List.append_eq_cons_iff.1 hs.symm |>.resolve_right (by simp)
      cases hlast
      simpa using ht
  | cons c r ih =>
      by_cases hc : c = newline
      · subst hc
        rw [lines_newline_cons] at hs
        cases front with
        | nil =>
            have : lines r = [] := (List.cons.inj hs).2
            exact absurd this (lines_ne_nil r)
        | cons head front =>
            obtain ⟨rfl, hr⟩ := List.cons.inj hs
            rw [List.cons_append, lines_newline_cons, ih hr, List.cons_append]
      · obtain ⟨head, rest, hr⟩ := List.exists_cons_of_ne_nil (lines_ne_nil r)
        rw [lines_cons_of_ne hc hr] at hs
        cases front with
        | nil =>
            obtain ⟨rfl, rfl⟩ := List.cons.inj hs
            have hr' : lines r = [] ++ [head] := hr
            rw [List.cons_append, lines_cons_of_ne hc (ih hr')]
            rfl
        | cons head' front =>
            obtain ⟨rfl, rfl⟩ := List.cons.inj hs
            have hr' : lines r = (head :: front) ++ [last] := hr
            rw [List.cons_append, lines_cons_of_ne hc (ih hr')]
            rfl

/-- A text without newlines is one line. -/
theorem lines_eq_singleton {s : Bytes} (h : newline ∉ s) : lines s = [s] := splitOn_eq_singleton h

/-- Lines without newlines are the lines of the text that they make up. -/
theorem lines_join {pieces : List Bytes} (hne : pieces ≠ [])
    (h : ∀ piece ∈ pieces, newline ∉ piece) : lines (join [newline] pieces) = pieces :=
  splitOn_join hne h

/-- There is one line more than there are newlines. -/
theorem length_lines (s : Bytes) : (lines s).length = s.count newline + 1 := by
  induction s with
  | nil => rfl
  | cons c r ih =>
      by_cases hc : c = newline
      · subst hc
        rw [lines_newline_cons, List.length_cons, ih, List.count_cons_self]
      · obtain ⟨first, rest, hr⟩ := List.exists_cons_of_ne_nil (lines_ne_nil r)
        rw [lines_cons_of_ne hc hr, List.count_cons_of_ne hc, ← ih, hr]
        rfl

end Bytes

end DocLint
