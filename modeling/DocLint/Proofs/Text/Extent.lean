import DocLint.Proofs.Source.Tiling

/-!
# Spans of a source text

A position is a place of a source text if some line of the text has its column, the end of the line
included.  A span of the text leads from one place to another that does not come before it.

* `Position.Precedes`: the order of the text, as a relation; `compare_ne_gt_iff` ties it to
  `Position.compare`.
* `Span.IsIn`: spans of a source text.
* `isIn_columns`, `isIn_after`: the two ways to come by one, along a line and along the text.
-/

namespace DocLint

open Bytes

namespace Position

/-- The first position is the second one, or comes before it. -/
def Precedes (p q : Position) : Prop :=
  p.line.toNat < q.line.toNat ∨
    p.line.toNat = q.line.toNat ∧ p.column.toNat ≤ q.column.toNat

theorem Precedes.refl (p : Position) : p.Precedes p := .inr ⟨rfl, Nat.le_refl _⟩

theorem Precedes.trans {p q r : Position} (h : p.Precedes q) (h' : q.Precedes r) :
    p.Precedes r := by
  unfold Precedes at *
  omega

theorem compare_ne_gt_iff {p q : Position} : p.compare q ≠ .gt ↔ p.Precedes q := by
  rw [Position.compare, Ne, Ordering.then_eq_gt, Std.compare_eq_gt, Std.compare_eq_iff_eq,
    Std.compare_eq_gt, UInt32.lt_iff_toNat_lt, UInt32.lt_iff_toNat_lt, ← UInt32.toNat_inj, Precedes]
  omega

/-- The position is on a line of the source text, or at its end. -/
def IsPlaceOf (source : Bytes) (p : Position) : Prop := StandsAt source p []

/-- A place is on one of the lines, and not right of its end. -/
theorem IsPlaceOf.column_le {source : Bytes} {p : Position} (h : p.IsPlaceOf source) :
    1 ≤ p.line.toNat ∧ p.line.toNat ≤ (lines source).length ∧ 1 ≤ p.column.toNat ∧
      ∃ line, (lines source)[p.line.toNat - 1]? = some line ∧
        p.column.toNat ≤ 1 + line.length := by
  obtain ⟨hline, hcolumn, line, hget, hoccurs⟩ := h
  obtain ⟨hlt, -⟩ := List.getElem?_eq_some_iff.1 hget
  have hle := hoccurs.1
  exact ⟨hline, by omega, hcolumn, line, hget, by omega⟩

end Position

theorem occursAt_nil {text : Bytes} {k : Nat} (hk : k ≤ text.length) : OccursAt [] k text :=
  ⟨hk, List.nil_prefix⟩

theorem Bytes.OccursAt.length_le {t s : Bytes} {k : Nat} (h : t.OccursAt k s) :
    k + t.length ≤ s.length := by
  have hfit := h.2.length_le
  have hle := h.1
  rw [List.length_drop] at hfit
  omega

/-- What is found occurs at the offset where it is found. -/
theorem occursAt_of_offsetOf? {t s : Bytes} {k : Nat} (h : offsetOf? t s = some k) :
    t.OccursAt k s := by
  induction s generalizing k with
  | nil =>
      unfold offsetOf? at h
      split at h
      next hnil =>
        cases h
        exact hnil ▸ occursAt_nil (Nat.zero_le _)
      · cases h
  | cons c r ih =>
      unfold offsetOf? at h
      split at h
      next hstart =>
        cases h
        exact ⟨Nat.zero_le _, List.isPrefixOf_iff_prefix.1 hstart⟩
      · obtain ⟨j, hj, rfl⟩ := Option.map_eq_some_iff.1 h
        have hrest := ih hj
        exact ⟨Nat.succ_le_succ hrest.1, hrest.2⟩

/-- Between the first and the last occurrence of a byte nothing is counted twice. -/
theorem length_takeWhile_add_lt {c : UInt8} {s : Bytes} (h : c ∈ s) :
    (s.takeWhile (· ≠ c)).length + (s.reverse.takeWhile (· ≠ c)).length < s.length := by
  obtain ⟨front, behind, rfl, hfront⟩ := List.eq_append_cons_of_mem h
  have hall : ∀ d ∈ front, decide (d ≠ c) = true := fun d hd => by
    simpa using fun heq : d = c => hfront (heq ▸ hd)
  rw [List.takeWhile_append_of_pos hall, List.takeWhile_cons_of_neg (by simp), List.append_nil,
    List.reverse_append, List.reverse_cons, List.append_assoc]
  have hstop (u v : Bytes) : ((u ++ c :: v).takeWhile (· ≠ c)).length ≤ u.length := by
    induction u with
    | nil => simp
    | cons d u ih =>
        rw [List.cons_append, List.takeWhile_cons]
        split
        · exact Nat.succ_le_succ ih
        · exact Nat.zero_le _
  have hbehind := hstop behind.reverse front.reverse
  rw [List.length_reverse] at hbehind
  simp only [List.length_append, List.length_cons, List.cons_append, List.nil_append] at hbehind ⊢
  omega

namespace StandsAt

variable {source text : Bytes} {p : Position}

/-- A standing text has places between its bytes. -/
theorem isPlaceOf_right (h : StandsAt source p text) (hsize : source.length < 2 ^ 31) {k : Nat}
    (hk : k ≤ text.length) : (p.right k).IsPlaceOf source :=
  (h.right hsize (occursAt_nil hk)).1

theorem isPlaceOf (h : StandsAt source p text) (hsize : source.length < 2 ^ 31) :
    p.IsPlaceOf source := by
  simpa using h.isPlaceOf_right hsize (Nat.zero_le _)

/-- Columns along a standing text are counted without wrapping around. -/
theorem column_right (h : StandsAt source p text) (hsize : source.length < 2 ^ 31) {k : Nat}
    (hk : k ≤ text.length) : (p.right k).column.toNat = p.column.toNat + k := by
  have htake : OccursAt (text.take k) 0 text := ⟨Nat.zero_le _, List.take_prefix k text⟩
  simpa [Nat.min_eq_left hk] using (h.right hsize htake).2

end StandsAt

namespace Span

/-- The span leads from a place of the source text to a place that does not come before it. -/
structure IsIn (source : Bytes) (s : Span) : Prop where
  start : s.start.IsPlaceOf source
  stop : s.stop.IsPlaceOf source
  ordered : s.start.Precedes s.stop

variable {source : Bytes}

theorem isIn_point {p : Position} (h : p.IsPlaceOf source) : (Span.point p).IsIn source :=
  ⟨h, h, .refl p⟩

/-- Between two columns of a standing text. -/
theorem isIn_columns {p : Position} {text : Bytes} (h : StandsAt source p text)
    (hsize : source.length < 2 ^ 31) {j k : Nat} (hjk : j ≤ k) (hk : k ≤ text.length) :
    (Span.mk (p.right j) (p.right k)).IsIn source := by
  have hj : j ≤ text.length := Nat.le_trans hjk hk
  refine ⟨h.isPlaceOf_right hsize hj, h.isPlaceOf_right hsize hk, .inr ⟨rfl, ?_⟩⟩
  rw [h.column_right hsize hj, h.column_right hsize hk]
  omega

/-- Some bytes of a standing text. -/
theorem isIn_ofLength {p : Position} {text : Bytes} (h : StandsAt source p text)
    (hsize : source.length < 2 ^ 31) {k n : Nat} (hn : k + n ≤ text.length) :
    (Span.ofLength (p.right k) n).IsIn source := by
  rw [ofLength, Position.right_right]
  exact isIn_columns h hsize (Nat.le_add_right k n) hn

/-- A place on an earlier line comes before. -/
theorem isIn_of_line_lt {p q : Position} (hp : p.IsPlaceOf source) (hq : q.IsPlaceOf source)
    (h : p.line.toNat < q.line.toNat) : (Span.mk p q).IsIn source :=
  ⟨hp, hq, .inl h⟩

/-- The positions after two beginnings of the source text, the longer one behind the shorter. -/
theorem isIn_after {front text behind : Bytes} (hsource : source = front ++ (text ++ behind))
    (hsize : source.length < 2 ^ 31) :
    (Span.mk (Position.after {} front) (Position.after {} (front ++ text))).IsIn source := by
  have hstart : source = front ++ ([] ++ (text ++ behind)) := hsource
  have hstop : source = (front ++ text) ++ ([] ++ behind) := by
    rw [hsource, List.append_assoc, List.nil_append]
  refine ⟨standsAt_after hstart hsize List.not_mem_nil,
    standsAt_after hstop hsize List.not_mem_nil, ?_⟩
  by_cases hline : newline ∈ text
  · -- A newline in the text takes the position to a lower line.
    have hfront := Position.after_isAt hstart hsize
    have hbehind := Position.after_isAt hstop hsize
    have hcount : 0 < text.count newline := List.count_pos_iff.2 hline
    refine .inl ?_
    rw [hfront.1, hbehind.1, hsource, List.take_left,
      ← List.append_assoc, List.take_left, List.count_append]
    omega
  · have hstands : StandsAt source (Position.after {} front) text :=
      standsAt_after hsource hsize hline
    have hspan := isIn_columns hstands hsize (Nat.zero_le text.length) (Nat.le_refl _)
    rw [Position.after_append, Position.after_eq_right hline]
    simpa using hspan.ordered

end Span

end DocLint
