import DocLint.Proofs.Docstring.TypeBrackets

/-!
# Splitting a type declaration

The segments of a declaration are put together again to the declaration: apart from the types there
are whitespace, commas, the word `or`, and `optional` as often as it is counted.

* `Splitting`: a declaration cut into segments.
* `Splitting.segment_balanced`: in a balanced declaration every segment is balanced.
* `ofText_splits`: the types that are read are the segments of such a splitting.
-/

namespace DocLint

open Bytes

namespace TypeList

/-- Segments with the offsets at which they begin, the first one at `k`. -/
def placed (k : Nat) : List Segment → List (Nat × Segment)
  | [] => []
  | s :: rest => (k, s) :: placed (k + s.text.length) rest

/-- A declaration cut into segments, with whitespace behind the last separator. -/
structure Splitting (text : Bytes) where
  segments : List Segment
  rest : Bytes
  text_eq : segments.flatMap Segment.text ++ rest = text
  rest_blank : isBlank rest = true
  sound : ∀ place ∈ placed 0 segments, place.2.IsSound text place.1

/-- The segment is neither empty nor the word that is counted. -/
def Segment.isType (s : Segment) : Bool := !s.value.isEmpty && s.value != optionalWord

/-- The value of a placed segment and where it stands. -/
def Segment.fragment (origin : Position) (k : Nat) (s : Segment) : Fragment where
  value := s.value
  span := ⟨origin.right (k + s.before.length), origin.right (k + s.before.length + s.value.length)⟩

namespace Splitting

/-- The types among the segments. -/
def types {text : Bytes} (splitting : Splitting text) (origin : Position) : List Fragment :=
  ((placed 0 splitting.segments).filter fun place => place.2.isType).map fun place =>
    place.2.fragment origin place.1

/-- How many segments are the word that is counted. -/
def optionals {text : Bytes} (splitting : Splitting text) : Nat :=
  splitting.segments.countP fun s => s.value == optionalWord

end Splitting

/-! ### Placed segments -/

theorem map_snd_placed (k : Nat) (segments : List Segment) :
    (placed k segments).map Prod.snd = segments := by
  induction segments generalizing k with
  | nil => rfl
  | cons s segments ih => exact congrArg (s :: ·) (ih _)

section Placed

variable {text rest : Bytes} {k : Nat} {segments : List Segment}

/-- Behind a segment the next one begins. -/
theorem drop_behind_segment {s : Segment}
    (htext : text.drop k = (s :: segments).flatMap Segment.text ++ rest) :
    text.drop k = s.text ++ (segments.flatMap Segment.text ++ rest) ∧
      text.drop (k + s.text.length) = segments.flatMap Segment.text ++ rest := by
  rw [List.flatMap_cons, List.append_assoc] at htext
  exact ⟨htext, by rw [← List.drop_drop, htext, List.drop_left]⟩

/-- A placed segment is what stands at its offset. -/
theorem drop_of_mem_placed (htext : text.drop k = segments.flatMap Segment.text ++ rest) :
    ∀ place ∈ placed k segments, ∃ behind, text.drop place.1 = place.2.text ++ behind := by
  induction segments generalizing k with
  | nil => nofun
  | cons s segments ih =>
      obtain ⟨hfirst, hnext⟩ := drop_behind_segment htext
      intro place hplace
      rcases List.mem_cons.1 hplace with rfl | hplace
      · exact ⟨_, hfirst⟩
      · exact ih hnext place hplace

/-- In a balanced declaration the segments begin outside brackets, and each is balanced. -/
theorem balanced_of_mem_placed (htext : text.drop k = segments.flatMap Segment.text ++ rest)
    (hsound : ∀ place ∈ placed k segments, place.2.IsSound text place.1)
    (hbalanced : IsBalanced text) (hk : k ≤ text.length) (hstart : openAt text k = 0) :
    ∀ place ∈ placed k segments, openAt text place.1 = 0 ∧ IsBalanced place.2.value := by
  induction segments generalizing k with
  | nil => nofun
  | cons s segments ih =>
      obtain ⟨hfirst, hnext⟩ := drop_behind_segment htext
      obtain ⟨hvalue, hstop⟩ :=
        (hsound (k, s) List.mem_cons_self).balanced hfirst hstart hk hbalanced
      have hle : k + s.text.length ≤ text.length := by
        have hlength := congrArg List.length hfirst
        rw [List.length_drop, List.length_append] at hlength
        omega
      intro place hplace
      rcases List.mem_cons.1 hplace with rfl | hplace
      · exact ⟨hstart, hvalue⟩
      · exact ih hnext (fun p hp => hsound p (List.mem_cons_of_mem _ hp)) hle hstop place hplace

end Placed

/-! ### Reading -/

/-- The segments that are read from the offset `k` on. -/
theorem exists_segments {text : Bytes} {c : TypeCursor} {k : Nat} (hc : c = .ofOffset text k)
    (hk : k ≤ text.length) (origin : Position) :
    ∃ parts rest, text.drop k = parts.flatMap Segment.text ++ rest ∧ isBlank rest = true ∧
      (∀ place ∈ placed k parts, place.2.IsSound text place.1) ∧
      (segments c).map (ofSegment origin) =
        (placed k parts).map fun place => place.2.fragment origin place.1 := by
  have hskip : c.skipBlank = .ofOffset text (k + leading (text.drop k)) :=
    hc ▸ TypeCursor.skip_ofOffset _ _ _
  rw [segments, hskip, TypeCursor.rest_ofOffset]
  split
  next hend =>
    rw [← List.drop_drop, drop_leading] at hend
    exact ⟨[], text.drop k, rfl, stripStart_eq_nil_iff.1 hend,
      fun _ hplace => absurd hplace List.not_mem_nil, rfl⟩
  next hmore =>
    have hm : k + leading (text.drop k) < text.length := by
      by_contra hge
      exact hmore (List.drop_of_length_le (Nat.le_of_not_lt hge))
    obtain ⟨s, hs, hbefore, hvalue, htext, hle, hafter⟩ := exists_segment rfl hm
    have hshorter : text.length - (k + s.text.length) < text.length - k := by
      have hlt := length_afterSegment_lt hmore (hskip ▸ leading_skipBlank c)
      rw [hafter, TypeCursor.rest_ofOffset, TypeCursor.rest_ofOffset, List.length_drop,
        List.length_drop] at hlt
      omega
    obtain ⟨parts, rest, hparts, hrest, hsound, hmap⟩ := exists_segments hafter hle origin
    refine ⟨s :: parts, rest, ?_, hrest, ?_, ?_⟩
    · rw [htext, hparts, List.flatMap_cons, List.append_assoc]
    · intro place hplace
      rcases List.mem_cons.1 hplace with rfl | hplace
      · exact hs
      · exact hsound place hplace
    · rw [List.map_cons, hmap]
      have hraw := leading_take (hskip ▸ leading_skipBlank c)
        (segmentLength (.ofOffset text (k + leading (text.drop k))))
      rw [TypeCursor.rest_ofOffset] at hraw
      rw [ofSegment, TypeCursor.offset_ofOffset hm.le, hraw, Nat.add_zero, ← hvalue, ← hbefore]
      rfl
termination_by text.length - k

/-- The types are the segments of a splitting other than the empty ones and the word that is
counted. -/
theorem exists_splitting (text : Bytes) (origin : Position) (count : UInt32) :
    ∃ splitting : Splitting text,
      (ofText text origin count).types = splitting.types origin ∧
      (ofText text origin count).optionalCount = count + UInt32.ofNat splitting.optionals := by
  have hfront : ({ rest := text } : TypeCursor) = .ofOffset text 0 := rfl
  obtain ⟨parts, rest, htext, hrest, hsound, hmap⟩ :=
    exists_segments hfront (Nat.zero_le _) origin
  refine ⟨⟨parts, rest, htext.symm, hrest, hsound⟩, ?_, ?_⟩
  · simp only [ofText, hmap, List.filter_map, List.filter_filter, Splitting.types]
    exact congrArg (List.map _) (List.filter_congr fun place _ => Bool.and_comm _ _)
  · -- No empty segment is the word.
    have hword : ∀ place ∈ placed 0 parts, (place.2.value == optionalWord &&
        !place.2.value.isEmpty) = true ↔ (place.2.value == optionalWord) = true := by
      intro place _
      rw [Bool.and_eq_true, and_iff_left_iff_imp, beq_iff_eq]
      intro hvalue
      rw [hvalue]
      rfl
    have hcount := List.countP_map (p := fun s => s.value == optionalWord) (f := Prod.snd)
      (l := placed 0 parts)
    rw [map_snd_placed] at hcount
    simp only [ofText, hmap, List.countP_filter, List.countP_map, Splitting.optionals, hcount]
    exact congrArg (fun n => count + UInt32.ofNat n) (List.countP_congr hword)

namespace Splitting

variable {text : Bytes} (splitting : Splitting text) {origin : Position}

theorem mem_types_iff {type : Fragment} :
    type ∈ splitting.types origin ↔ ∃ place ∈ placed 0 splitting.segments,
      (place.2.value ≠ [] ∧ place.2.value ≠ optionalWord) ∧
        place.2.fragment origin place.1 = type := by
  simp [types, Segment.isType, and_assoc]

theorem exists_drop : ∀ place ∈ placed 0 splitting.segments,
    ∃ behind, text.drop place.1 = place.2.text ++ behind :=
  drop_of_mem_placed (k := 0) splitting.text_eq.symm

/-- In a balanced declaration every segment begins outside brackets and is balanced. -/
theorem segment_balanced (hbalanced : IsBalanced text) :
    ∀ place ∈ placed 0 splitting.segments, openAt text place.1 = 0 ∧ IsBalanced place.2.value :=
  balanced_of_mem_placed splitting.text_eq.symm splitting.sound hbalanced (Nat.zero_le _) rfl

end Splitting

/-- The types of a declaration are the segments of a splitting other than the empty ones and the word
that is counted, so that nothing else is left out and nothing is added.  Each stands where its span
says, and its brackets are balanced if those of the declaration are. -/
theorem ofText_splits (text : Bytes) (origin : Position) (count : UInt32) :
    ∃ splitting : Splitting text,
      (ofText text origin count).types = splitting.types origin ∧
      (ofText text origin count).optionalCount = count + UInt32.ofNat splitting.optionals ∧
      ∀ type ∈ (ofText text origin count).types,
        type.value ≠ [] ∧ strip type.value = type.value ∧ type.value ≠ optionalWord ∧
          (IsBalanced text → IsBalanced type.value) := by
  obtain ⟨splitting, htypes, hcount⟩ := exists_splitting text origin count
  refine ⟨splitting, htypes, hcount, fun type htype => ?_⟩
  rw [htypes, splitting.mem_types_iff] at htype
  obtain ⟨place, hplace, ⟨hne, hword⟩, rfl⟩ := htype
  exact ⟨hne, (splitting.sound place hplace).strip_eq, hword,
    fun hbalanced => (splitting.segment_balanced hbalanced place hplace).2⟩

end TypeList

end DocLint
