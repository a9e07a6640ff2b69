import DocLint.Proofs.Check.Discipline
import DocLint.Proofs.Check.Extents

/-!
# Colons between spaces

A colon of a header stands as it should if there is whitespace directly on both sides of it, and
something else further out on both sides.  The scan for the other ones looks at each offset of the
header once, from left to right, and jumps over what it has found; nevertheless it finds something
wherever there is a colon that does not stand as it should.

* `IsSpaced`: a colon that stands as it should, given the text on both sides of it.
* `exists_unspaced`, `isSpaced_of_untight`: what the scan asks at one offset.
* `mem_tightColonsFrom`, `pairwise_tightColonsFrom`, `untight_of_tightColonsFrom`: the whole scan.
* `colonSpacing_reports_unspaced`: the scan and the rule that uses it.
-/

namespace DocLint

namespace Check

open Bytes

/-- A colon between the two texts stands as it should: whitespace is next to it on both sides, and
neither text is nothing but whitespace. -/
structure IsSpaced (front behind : Bytes) : Prop where
  space_before : front.getLast?.any isSpace = true
  space_behind : behind.head?.any isSpace = true
  text_before : isBlank front = false
  text_behind : isBlank behind = false

/-! ### One offset -/

section Offset

variable {seen rest : Bytes}

/-- What the scan finds at an offset covers a colon that does not stand as it should. -/
theorem exists_unspaced (h : 0 < tightLength (seen.length == 0) rest) :
    ∃ front behind, seen ++ rest = front ++ byte ':' :: behind ∧ seen.length ≤ front.length ∧
      front.length < seen.length + tightLength (seen.length == 0) rest ∧ ¬ IsSpaced front behind := by
  cases rest with
  | nil => cases h
  | cons c r =>
      rw [tightLength] at h ⊢
      split_ifs at h ⊢ with hbehind hfront hblank hfirst
      · -- The colon stands right behind the byte at the offset.
        simp only [Bool.and_eq_true, Bool.not_eq_true', beq_iff_eq] at hbehind
        obtain ⟨behind, rfl⟩ := List.head?_eq_some_iff.1 hbehind.2
        refine ⟨seen ++ [c], behind, by simp, by simp, by simp, fun hspaced => ?_⟩
        have hspace := hspaced.space_before
        simp [hbehind.1] at hspace
      · -- The colon stands at the offset, right in front of a byte.
        simp only [Bool.and_eq_true, beq_iff_eq] at hfront
        obtain ⟨rfl, hnext⟩ := hfront
        refine ⟨seen, r, rfl, Nat.le_refl _, by omega, fun hspaced => ?_⟩
        have hspace := hspaced.space_behind
        cases r with
        | nil => cases hnext
        | cons d r => simp_all
      · -- The colon stands at the offset, and whitespace up to the end.
        simp only [Bool.and_eq_true, beq_iff_eq] at hblank
        obtain ⟨rfl, hnone⟩ := hblank
        refine ⟨seen, r, rfl, Nat.le_refl _, by rw [List.length_cons]; omega, fun hspaced => ?_⟩
        rw [hspaced.text_behind] at hnone
        cases hnone
      · -- Whitespace stands in front of the first colon, from the beginning of the text on.
        rw [Bool.and_eq_true, beq_iff_eq, List.length_eq_zero_iff] at hfirst
        obtain ⟨rfl, hcolon⟩ := hfirst
        obtain ⟨behind, hbehind⟩ := List.isPrefixOf_iff_prefix.1 hcolon
        have hsplit := takeWhile_append_stripStart (c :: r)
        rw [← hbehind] at hsplit
        refine ⟨(c :: r).takeWhile isSpace, behind, hsplit.symm, Nat.zero_le _, ?_, fun hspaced => ?_⟩
        · rw [List.length_nil, Nat.zero_add, leading]
          exact Nat.lt_succ_self _
        · have hblank : isBlank ((c :: r).takeWhile isSpace) = true :=
            List.all_eq_true.2 fun _ hd => List.mem_takeWhile_imp hd
          rw [hspaced.text_before] at hblank
          cases hblank
      · exact absurd h (Nat.lt_irrefl 0)

/-- The colon at an offset at which the scan finds nothing. -/
theorem behind_of_untight {first : Bool} {behind : Bytes}
    (h : tightLength first (byte ':' :: behind) = 0) :
    behind.head?.any isSpace = true ∧ isBlank behind = false := by
  rw [tightLength] at h
  split_ifs at h with hbehind hfront hblank
  · have hsolid : isBlank behind = false := by simpa using hblank
    refine ⟨?_, hsolid⟩
    cases behind with
    | nil => cases hsolid
    | cons d r => simpa using hfront

/-- A colon stands as it should if the scan finds nothing at any offset. -/
theorem isSpaced_of_untight {s front behind : Bytes} (hs : s = front ++ byte ':' :: behind)
    (h : ∀ seen rest, s = seen ++ rest → tightLength (seen.length == 0) rest = 0) :
    IsSpaced front behind := by
  obtain ⟨hspace, hsolid⟩ := behind_of_untight (h front (byte ':' :: behind) hs)
  have htext : isBlank front = false := by
    rw [Bool.eq_false_iff]
    intro hblank
    -- Otherwise the colon is what the text begins with, at the offset zero.
    have hstart : startsWith (stripStart s) (ascii ":") = true := by
      have hall : ∀ c ∈ front, isSpace c = true := List.all_eq_true.1 hblank
      rw [hs, stripStart, List.dropWhile_append_of_pos hall]
      rfl
    have hzero := h [] s rfl
    obtain ⟨c, r, hcons⟩ : ∃ c r, s = c :: r := List.exists_cons_of_ne_nil (by simp [hs])
    rw [hcons] at hzero hstart
    rw [tightLength] at hzero
    split_ifs at hzero with _ _ _ hfirst
    · exact hfirst (by rw [hstart]; rfl)
  refine ⟨?_, hspace, htext, hsolid⟩
  have hne : front ≠ [] := by
    rintro rfl
    cases htext
  obtain ⟨init, last, rfl⟩ : ∃ init last, front = init ++ [last] :=
    ⟨_, _, (List.dropLast_append_getLast hne).symm⟩
  have hlast := h init (last :: byte ':' :: behind) (by rw [hs, List.append_assoc]; rfl)
  rw [tightLength] at hlast
  split_ifs at hlast with hbehind
  · simpa using hbehind

end Offset

/-! ### The scan -/

section Scan

variable {skip offset : Nat} {s : Bytes}

/-- What the scan finds is what it finds at one of the offsets that it does not skip. -/
theorem mem_tightColonsFrom {place : Nat × Nat} (h : place ∈ tightColonsFrom skip offset s) :
    ∃ seen rest, s = seen ++ rest ∧ skip ≤ seen.length ∧ place.1 = offset + seen.length ∧
      0 < tightLength (place.1 == 0) rest ∧ place.2 = place.1 + tightLength (place.1 == 0) rest := by
  have hlater {skip offset : Nat} {c : UInt8} {r : Bytes} {place : Nat × Nat}
      (h : ∃ seen rest, r = seen ++ rest ∧ skip ≤ seen.length ∧
        place.1 = offset + 1 + seen.length ∧ 0 < tightLength (place.1 == 0) rest ∧
        place.2 = place.1 + tightLength (place.1 == 0) rest) :
      ∃ seen rest, c :: r = seen ++ rest ∧ skip + 1 ≤ seen.length ∧
        place.1 = offset + seen.length ∧ 0 < tightLength (place.1 == 0) rest ∧
        place.2 = place.1 + tightLength (place.1 == 0) rest := by
    obtain ⟨seen, rest, rfl, hskip, hstart, hfound⟩ := h
    refine ⟨c :: seen, rest, rfl, Nat.succ_le_succ hskip, ?_, hfound⟩
    rw [hstart, List.length_cons]
    omega
  fun_induction tightColonsFrom skip offset s with
  | case1 => cases h
  | case2 skip offset c r ih => exact hlater (ih h)
  | case3 offset c r _ ih =>
      obtain ⟨seen, rest, hsplit, -, hfound⟩ := hlater (c := c) (ih h)
      exact ⟨seen, rest, hsplit, Nat.zero_le _, hfound⟩
  | case4 offset c r n hn ih =>
      rcases List.mem_cons.1 h with rfl | h
      · exact ⟨[], c :: r, rfl, Nat.le_refl _, rfl, by rw [hn]; exact Nat.succ_pos n, by rw [hn]; rfl⟩
      · obtain ⟨seen, rest, hsplit, -, hfound⟩ := hlater (c := c) (ih h)
        exact ⟨seen, rest, hsplit, Nat.zero_le _, hfound⟩

/-- What the scan finds comes in order, each place behind the end of the one before. -/
theorem pairwise_tightColonsFrom (skip offset : Nat) (s : Bytes) :
    (tightColonsFrom skip offset s).Pairwise fun p q => p.2 ≤ q.1 := by
  fun_induction tightColonsFrom skip offset s with
  | case1 => exact .nil
  | case2 _ _ _ _ ih => exact ih
  | case3 _ _ _ _ ih => exact ih
  | case4 offset c r n _ ih =>
      refine List.pairwise_cons.2 ⟨fun q hq => ?_, ih⟩
      obtain ⟨seen, rest, -, hskip, hstart, -⟩ := mem_tightColonsFrom hq
      show offset + n + 1 ≤ q.1
      omega

/-- A scan that finds nothing finds nothing at any offset. -/
theorem untight_of_tightColonsFrom (h : tightColonsFrom 0 offset s = []) {seen rest : Bytes}
    (hs : s = seen ++ rest) : tightLength (offset + seen.length == 0) rest = 0 := by
  induction s generalizing offset seen with
  | nil =>
      obtain ⟨-, rfl⟩ := List.append_eq_nil_iff.1 hs.symm
      rfl
  | cons c r ih =>
      cases hlength : tightLength (offset == 0) (c :: r) with
      | succ n =>
          rw [tightColonsFrom, hlength] at h
          cases h
      | zero =>
          rw [tightColonsFrom, hlength] at h
          cases seen with
          | nil =>
              rw [List.nil_append] at hs
              rw [← hs]
              exact hlength
          | cons d seen =>
              obtain ⟨-, hr⟩ := List.cons.inj hs
              have hrest := ih h hr
              rwa [Nat.add_right_comm, Nat.add_assoc] at hrest

end Scan

/-- Each place that the scan finds covers a colon that does not stand as it should. -/
theorem exists_unspaced_of_mem {s : Bytes} {place : Nat × Nat} (h : place ∈ tightColons s) :
    ∃ front behind, s = front ++ byte ':' :: behind ∧ place.1 ≤ front.length ∧
      front.length < place.2 ∧ ¬ IsSpaced front behind := by
  obtain ⟨seen, rest, rfl, -, hstart, hpos, hstop⟩ := mem_tightColonsFrom h
  rw [Nat.zero_add] at hstart
  rw [hstart] at hpos hstop ⊢
  rw [hstop]
  exact exists_unspaced hpos

/-- The scan finds nothing if and only if all colons stand as they should. -/
theorem tightColons_eq_nil_iff {s : Bytes} : tightColons s = [] ↔
    ∀ front behind, s = front ++ byte ':' :: behind → IsSpaced front behind := by
  constructor
  · intro h front behind hs
    refine isSpaced_of_untight hs fun seen rest hsplit => ?_
    have hzero := untight_of_tightColonsFrom h hsplit
    rwa [Nat.zero_add] at hzero
  · intro h
    rw [List.eq_nil_iff_forall_not_mem]
    intro place hplace
    obtain ⟨front, behind, hs, -, -, hunspaced⟩ := exists_unspaced_of_mem hplace
    exact hunspaced (h front behind hs)

/-! ### The rule -/

/-- What is found about the colons of an entry. -/
def colonFindings (entry : ParameterEntry) : List Diagnostic :=
  (tightColons entry.header.text).map fun place =>
    Code.pr10.finding ⟨entry.header.column place.1, entry.header.column place.2⟩
      (suggest "Insert a space before and/or after `:`.") (parameterArgument entry.displayName)

/-- The rule reports what is found about each entry of the parameter section. -/
theorem colonSpacing_eq (d : Declaration) (doc : Docstring) : colonSpacing d doc =
    ofParameters d (.ok ((parameterEntries doc).flatMap colonFindings)) := by
  have hreport : ∀ p : ParameterEntry × Nat × Nat,
      Code.pr10.report ⟨p.1.header.column p.2.1, p.1.header.column p.2.2⟩
        (suggest "Insert a space before and/or after `:`.") (parameterArgument p.1.displayName) =
      pure (Code.pr10.finding ⟨p.1.header.column p.2.1, p.1.header.column p.2.2⟩
        (suggest "Insert a space before and/or after `:`.") (parameterArgument p.1.displayName)) :=
    fun p => report_eq_ok rfl _ _
  unfold colonSpacing
  refine congrArg (ofParameters d) ?_
  dsimp only
  rw [funext hreport, List.mapM_pure, List.map_flatMap]
  simp only [List.map_map]
  rfl

/-- The places that are found in a header follow each other, and each of them covers a colon; there
are none if and only if every colon has whitespace on both sides and something else further out.  So
the rule reports an entry of the parameters that a declaration takes if and only if some colon of its
header does not stand so. -/
theorem colonSpacing_reports_unspaced :
    (∀ s : Bytes,
      (∀ place ∈ tightColons s, place.1 < place.2 ∧ place.2 ≤ s.length ∧
        ∃ front behind, s = front ++ byte ':' :: behind ∧ place.1 ≤ front.length ∧
          front.length < place.2) ∧
      ((tightColons s).Pairwise fun p q => p.1 < q.1 ∧ p.2 ≤ q.1) ∧
      (tightColons s = [] ↔
        ∀ front behind, s = front ++ byte ':' :: behind → IsSpaced front behind)) ∧
    ∀ (d : Declaration) (doc : Docstring),
      colonSpacing d doc =
        .ok (if d.form.takesParameters then (parameterEntries doc).flatMap colonFindings else []) ∧
      ∀ entry : ParameterEntry, colonFindings entry ≠ [] ↔
        ∃ front behind, entry.header.text = front ++ byte ':' :: behind ∧
          ¬ IsSpaced front behind := by
  refine ⟨fun s => ⟨fun place hplace => ?_, ?_, tightColons_eq_nil_iff⟩, fun d doc => ⟨?_, ?_⟩⟩
  · obtain ⟨front, behind, hs, hstart, hstop, -⟩ := exists_unspaced_of_mem hplace
    exact ⟨mem_tightColons_lt hplace, mem_tightColons_le hplace, front, behind, hs, hstart, hstop⟩
  · refine (pairwise_tightColonsFrom 0 0 s).imp_of_mem fun {p q} hp _ hpq => ⟨?_, hpq⟩
    exact Nat.lt_of_lt_of_le (mem_tightColons_lt hp) hpq
  · rw [colonSpacing_eq, ofParameters]
    split <;> rfl
  · intro entry
    rw [colonFindings, Ne, List.map_eq_nil_iff, tightColons_eq_nil_iff]
    push Not
    rfl

end Check

end DocLint
