import DocLint.Proofs.Text.Place

/-!
# Reindented texts

Spaces behind every newline of a text indent all of its lines but the first.  Where the text itself
begins further down and further right, its places move by as many lines and columns.

* `lines_reindent`: all lines but the first have the spaces in front.
* `after_reindent`: the end of the text moves with its beginning.
-/

namespace DocLint

namespace Position

/-- The position `n` lines further down and `k` columns further right. -/
def shift (n k : Nat) (p : Position) : Position :=
  ⟨p.line + UInt32.ofNat n, p.column + UInt32.ofNat k⟩

theorem right_shift (n k j : Nat) (p : Position) :
    (p.shift n k).right j = (p.right j).shift n k := by
  simp only [shift, right, Position.mk.injEq, true_and]
  rw [UInt32.add_assoc, UInt32.add_comm (UInt32.ofNat k), ← UInt32.add_assoc]

/-- Columns gained by spaces on the line need not be gained by the line itself. -/
theorem right_shift_sub {m k : Nat} (h : m ≤ k) (n j : Nat) (p : Position) :
    (p.shift n (k - m)).right (m + j) = (p.right j).shift n k := by
  have hk : UInt32.ofNat k = UInt32.ofNat (k - m) + UInt32.ofNat m := by
    rw [← UInt32.ofNat_add, Nat.sub_add_cancel h]
  rw [right_shift, ← right_right]
  simp only [shift, right, Position.mk.injEq, true_and, hk]
  rw [UInt32.add_assoc, UInt32.add_assoc, UInt32.add_assoc, UInt32.add_comm (UInt32.ofNat m),
    UInt32.add_assoc]

end Position

namespace Span

/-- The span `n` lines further down and `k` columns further right. -/
def shift (n k : Nat) (s : Span) : Span := ⟨s.start.shift n k, s.stop.shift n k⟩

end Span

namespace Bytes

/-- The text with `k` spaces behind every newline. -/
def reindent (k : Nat) : Bytes → Bytes
  | [] => []
  | c :: r => if c = newline then c :: (spaces k ++ reindent k r) else c :: reindent k r

theorem reindent_append (k : Nat) (s t : Bytes) :
    reindent k (s ++ t) = reindent k s ++ reindent k t := by
  induction s with
  | nil => rfl
  | cons c r ih =>
      by_cases hc : c = newline
      · simp [reindent, hc, ih]
      · simp [reindent, hc, ih]

/-- A single line stays as it is. -/
theorem reindent_eq_self {s : Bytes} (h : newline ∉ s) (k : Nat) : reindent k s = s := by
  induction s with
  | nil => rfl
  | cons c r ih =>
      rw [List.mem_cons, not_or] at h
      rw [reindent, if_neg (Ne.symm h.1), ih h.2]

theorem newline_not_mem_spaces (k : Nat) : newline ∉ spaces k := fun h =>
  absurd (List.eq_of_mem_replicate h) (by decide)

/-- All lines but the first are indented. -/
theorem lines_reindent (k : Nat) {s first : Bytes} {rest : List Bytes}
    (h : lines s = first :: rest) :
    lines (reindent k s) = first :: rest.map (spaces k ++ ·) := by
  induction s generalizing first rest with
  | nil =>
      rw [lines_nil] at h
      cases h
      rfl
  | cons c r ih =>
      obtain ⟨head, tail, hr⟩ := List.exists_cons_of_ne_nil (lines_ne_nil r)
      by_cases hc : c = newline
      · subst hc
        rw [lines_newline_cons, hr] at h
        cases h
        -- The spaces are a line without an end, which the first line of the rest continues.
        have hspaces : lines (spaces k) = [] ++ [spaces k] :=
          lines_eq_singleton (newline_not_mem_spaces k)
        rw [reindent, if_pos rfl, lines_newline_cons, lines_append _ _ hspaces (ih hr)]
        rfl
      · rw [lines_cons_of_ne hc hr] at h
        cases h
        rw [reindent, if_neg hc, lines_cons_of_ne hc (ih hr)]

end Bytes

namespace Position

open Bytes

/-- The end of a reindented text moves with its beginning. -/
theorem after_reindent (n k : Nat) (p : Position) (s : Bytes) :
    (p.shift n k).after (reindent k s) = (p.after s).shift n k := by
  induction s generalizing p with
  | nil => rfl
  | cons c r ih =>
      by_cases hc : c = newline
      · -- The spaces behind the newline lead to column `1 + k`.
        have hstart : ((p.shift n k).step newline).right k = (p.step newline).shift n k := by
          simp only [step, shift, right, if_true, Position.mk.injEq, and_true]
          rw [UInt32.add_assoc, UInt32.add_comm (UInt32.ofNat n), ← UInt32.add_assoc]
        rw [hc, reindent, if_pos rfl, after_cons, after_append,
          after_eq_right (newline_not_mem_spaces k), length_spaces, hstart, ih, after_cons]
      · have hstep : (p.shift n k).step c = (p.step c).shift n k := by
          simp only [step, if_neg hc, right_shift]
        rw [reindent, if_neg hc, after_cons, hstep, ih, after_cons]

end Position

end DocLint
