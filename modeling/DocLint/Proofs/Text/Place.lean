import DocLint.Proofs.Text.Edges
import DocLint.Proofs.Text.Lines
import DocLint.Text.Position
import Mathlib.Algebra.Group.Nat.Defs
import Mathlib.Data.List.Infix

/-!
# Places in a text

A text occurs in another one at an offset, and stands in a source text at a line and a column.  The
position after reading a text is the place of what follows it, as long as the source text is small
enough for its lines and columns to be counted in words.

* `OccursAt`, `StandsAt`: the two notions of place.
* `standsAt_after`: what follows a text stands at the position after it.
* `StandsAt.right`: what occurs in a standing text stands as far to the right.
-/

namespace DocLint

namespace Bytes

/-- `t` is part of `s`, from the offset `k` on. -/
def OccursAt (t : Bytes) (k : Nat) (s : Bytes) : Prop := k ≤ s.length ∧ t <+: s.drop k

theorem occursAt_self (s : Bytes) : OccursAt s 0 s := ⟨Nat.zero_le _, List.prefix_refl s⟩

/-- What occurs in an occurrence occurs as far behind it. -/
theorem OccursAt.trans {t u s : Bytes} {j k : Nat} (ht : OccursAt t j u) (hu : OccursAt u k s) :
    OccursAt t (k + j) s := by
  have hprefix : u <+: s.drop k := hu.2
  have hlength := hprefix.length_le
  rw [List.length_drop] at hlength
  have hj := ht.1
  have hk := hu.1
  refine ⟨by omega, ?_⟩
  rw [← List.drop_drop]
  exact List.IsPrefix.trans ht.2 (List.IsPrefix.drop hprefix j)

theorem OccursAt.of_isPrefix {t u s : Bytes} {k : Nat} (h : OccursAt u k s) (ht : t <+: u) :
    OccursAt t k s :=
  ⟨h.1, ht.trans h.2⟩

theorem occursAt_drop {s : Bytes} {k : Nat} (h : k ≤ s.length) : OccursAt (s.drop k) k s :=
  ⟨h, List.prefix_refl _⟩

theorem stripEnd_isPrefix (s : Bytes) : stripEnd s <+: s := by
  have hsuffix := List.dropWhile_suffix isSpace (l := s.reverse)
  have hprefix := List.reverse_prefix.2 hsuffix
  rwa [List.reverse_reverse] at hprefix

/-- A stripped text occurs behind the leading whitespace. -/
theorem strip_occursAt (s : Bytes) : OccursAt (strip s) (leading s) s := by
  refine ⟨leading_le s, ?_⟩
  rw [drop_leading]
  exact stripEnd_isPrefix (stripStart s)

end Bytes

open Bytes

/-! ### Lines and columns -/

/-- The source text holds the text from a place on: on the line of the position, behind the bytes
left of its column. -/
def StandsAt (source : Bytes) (p : Position) (text : Bytes) : Prop :=
  1 ≤ p.line.toNat ∧ 1 ≤ p.column.toNat ∧
    ∃ line, (lines source)[p.line.toNat - 1]? = some line ∧ text.OccursAt (p.column.toNat - 1) line

namespace Position

/-- Text without newlines moves to the right only. -/
theorem after_eq_right {s : Bytes} (h : newline ∉ s) (p : Position) :
    p.after s = p.right s.length := by
  induction s generalizing p with
  | nil => simp
  | cons c r ih =>
      rw [List.mem_cons, not_or] at h
      have hstep : p.step c = p.right 1 := if_neg (Ne.symm h.1)
      rw [after_cons, hstep, ih h.2, right_right, List.length_cons, Nat.add_comm]

/-- The position after a text: as many lines down as it has newlines, and behind its last line. -/
theorem after_eq_of_lines {s : Bytes} {front : List Bytes} {last : Bytes}
    (h : lines s = front ++ [last]) :
    after {} s = ⟨1 + UInt32.ofNat front.length, 1 + UInt32.ofNat last.length⟩ := by
  -- A byte at the end changes the last line only, or begins a new one.
  induction s using List.reverseRecOn generalizing front last with
  | nil =>
      rw [lines_nil] at h
      obtain ⟨rfl, hlast⟩ := List.append_eq_cons_iff.1 h.symm |>.resolve_right (by simp)
      cases hlast
      rfl
  | append_singleton s c ih =>
      obtain ⟨front', last', hs⟩ : ∃ front' last', lines s = front' ++ [last'] :=
        ⟨_, _, (List.dropLast_append_getLast (lines_ne_nil s)).symm⟩
      rw [after_append, ih hs, after_cons, after_nil]
      by_cases hc : c = newline
      · subst hc
        have hlines := lines_append s [newline] hs (lines_newline_cons [])
        rw [List.append_nil, lines_nil, h] at hlines
        have hsplit : front ++ [last] = (front' ++ [last']) ++ [[]] := by simpa using hlines
        obtain ⟨rfl, hlast⟩ := List.append_inj' hsplit rfl
        cases hlast
        rw [step, if_pos rfl, List.length_append, UInt32.ofNat_add, ← UInt32.add_assoc]
        rfl
      · have hsingle : lines [c] = [[c]] := lines_eq_singleton (by simpa using Ne.symm hc)
        have hlines := lines_append s [c] hs hsingle
        rw [h] at hlines
        obtain ⟨rfl, hlast⟩ := List.append_inj' hlines rfl
        cases hlast
        rw [step, if_neg hc, right, List.length_append, UInt32.ofNat_add, ← UInt32.add_assoc]
        rfl

end Position

theorem length_le_of_mem_lines {s line : Bytes} (h : line ∈ lines s) : line.length ≤ s.length := by
  induction s generalizing line with
  | nil =>
      rw [lines_nil, List.mem_singleton] at h
      simp [h]
  | cons c r ih =>
      obtain ⟨first, rest, hr⟩ := List.exists_cons_of_ne_nil (lines_ne_nil r)
      have hrest : ∀ l ∈ first :: rest, l.length ≤ r.length := fun l hl => ih (hr ▸ hl)
      rw [List.length_cons]
      by_cases hc : c = newline
      · subst hc
        rw [lines_newline_cons, hr] at h
        rcases List.mem_cons.1 h with rfl | h
        · simp
        · have := hrest line h
          omega
      · rw [lines_cons_of_ne hc hr] at h
        rcases List.mem_cons.1 h with rfl | h
        · have := hrest first List.mem_cons_self
          rw [List.length_cons]
          omega
        · have := hrest line (List.mem_cons_of_mem first h)
          omega

/-- What follows a text stands at the position after it. -/
theorem standsAt_after {source front text behind : Bytes}
    (hsource : source = front ++ (text ++ behind)) (hsize : source.length < 2 ^ 31)
    (hline : newline ∉ text) : StandsAt source (Position.after {} front) text := by
  obtain ⟨above, last, hfront⟩ : ∃ above last, lines front = above ++ [last] :=
    ⟨_, _, (List.dropLast_append_getLast (lines_ne_nil front)).symm⟩
  obtain ⟨first, below, hbehind⟩ := List.exists_cons_of_ne_nil (lines_ne_nil behind)
  have htext : lines text = [] ++ [text] := lines_eq_singleton hline
  have hlines : lines source = above ++ (last ++ (text ++ first)) :: below := by
    rw [hsource]
    exact lines_append front (text ++ behind) hfront (lines_append text behind htext hbehind)
  -- Neither the lines nor the bytes in front are too many to be counted.
  have hlast : last.length ≤ front.length := length_le_of_mem_lines (by simp [hfront])
  have habove : above.length ≤ front.length := by
    have hcount := length_lines front
    have hle := List.count_le_length (a := newline) (l := front)
    rw [hfront, List.length_append, List.length_singleton] at hcount
    omega
  have hlength : front.length ≤ source.length := by
    rw [hsource, List.length_append]
    omega
  rw [Position.after_eq_of_lines hfront, StandsAt]
  simp only [UInt32.toNat_add, UInt32.toNat_one, UInt32.toNat_ofNat']
  have hrow : (1 + above.length % 2 ^ 32) % 2 ^ 32 = 1 + above.length := by omega
  have hcolumn : (1 + last.length % 2 ^ 32) % 2 ^ 32 = 1 + last.length := by omega
  rw [hrow, hcolumn, hlines, Nat.add_sub_cancel_left, Nat.add_sub_cancel_left]
  refine ⟨by omega, by omega, last ++ (text ++ first), by simp, by simp, ?_⟩
  rw [List.drop_left]
  exact List.prefix_append text first

/-- What occurs in a standing text stands as far to the right. -/
theorem StandsAt.right {source text t : Bytes} {p : Position} {k : Nat}
    (h : StandsAt source p text) (hsize : source.length < 2 ^ 31) (ht : t.OccursAt k text) :
    StandsAt source (p.right k) t ∧
      (p.right (k + t.length)).column.toNat = (p.right k).column.toNat + t.length := by
  obtain ⟨hline, hcolumn, line, hget, hoccurs⟩ := h
  have hmove := ht.trans hoccurs
  have hlength := length_le_of_mem_lines (List.mem_of_getElem? hget)
  have hfit := hmove.2.length_le
  rw [List.length_drop] at hfit
  have hoffset := hmove.1
  have hright (j : Nat) (hj : j ≤ k + t.length) :
      (p.right j).column.toNat = p.column.toNat + j := by
    rw [Position.right, UInt32.toNat_add, UInt32.toNat_ofNat']
    omega
  have hk := hright k (Nat.le_add_right _ _)
  refine ⟨⟨hline, by omega, line, hget, ?_⟩, ?_⟩
  · rw [hk, show p.column.toNat + k - 1 = p.column.toNat - 1 + k by omega]
    exact hmove
  · rw [hright _ (Nat.le_refl _), hk, Nat.add_assoc]

end DocLint
