import DocLint.Docstring.ParameterList
import DocLint.Proofs.Text.Place

/-!
# Pieces of lines

Whatever reading makes of a docstring consists of pieces of its lines: dedented and stripped lines,
names, types and descriptions.  Every piece knows the position at which it stands on its line.

* `HoldsAt`: some lines hold a text at a position.
* `TypeList.ofText_isIn`: types stand where their offsets say.
* `ParameterEntry.entries_isIn`: the pieces of the entries of a section body are held by the lines of
  the body.
-/

namespace DocLint

open Bytes

/-- One of the lines holds the text, from the position on. -/
def HoldsAt (lines : List DocLine) (p : Position) (text : Bytes) : Prop :=
  ∃ line ∈ lines, ∃ k, p = line.column k ∧ text.OccursAt k line.text

/-- The lines hold the line, or the part of a line, at its position. -/
def DocLine.IsIn (lines : List DocLine) (line : DocLine) : Prop :=
  HoldsAt lines line.position line.text

/-- The lines hold the fragment where its span begins, and the span is as long as the fragment. -/
def Fragment.IsIn (lines : List DocLine) (f : Fragment) : Prop :=
  HoldsAt lines f.span.start f.value ∧ f.span.stop = f.span.start.right f.value.length

section Holding

variable {lines : List DocLine}

/-- What occurs in a text that is held is held as far to the right. -/
theorem HoldsAt.occurs {p : Position} {text t : Bytes} {k : Nat} (h : HoldsAt lines p text)
    (ht : t.OccursAt k text) : HoldsAt lines (p.right k) t := by
  obtain ⟨line, hline, j, rfl, hoccurs⟩ := h
  exact ⟨line, hline, j + k, Position.right_right _ _ _, ht.trans hoccurs⟩

theorem DocLine.isIn_of_mem {line : DocLine} (h : line ∈ lines) : line.IsIn lines :=
  ⟨line, h, 0, (Position.right_zero _).symm, occursAt_self line.text⟩

theorem DocLine.IsIn.drop {line : DocLine} (h : line.IsIn lines) {k : Nat}
    (hk : k ≤ line.text.length) : (line.drop k).IsIn lines :=
  h.occurs (occursAt_drop hk)

theorem DocLine.IsIn.fragment {line : DocLine} (h : line.IsIn lines) {k : Nat} {value : Bytes}
    (hvalue : value.OccursAt k line.text) : (line.fragment k value).IsIn lines :=
  ⟨h.occurs hvalue, (Position.right_right _ _ _).symm⟩

theorem DocLine.IsIn.stripped {line : DocLine} (h : line.IsIn lines) :
    line.stripped.IsIn lines :=
  h.fragment (strip_occursAt line.text)

theorem DocLine.IsIn.dedent {line : DocLine} (h : line.IsIn lines) (indent : Nat) :
    (line.dedent indent).IsIn lines :=
  h.drop (Nat.le_trans (Nat.min_le_right _ _) (leading_le line.text))

end Holding

/-! ### Types -/

namespace TypeCursor

/-- The cursor stands in the text, at its offset. -/
def Within (text : Bytes) (c : TypeCursor) : Prop :=
  c.offset ≤ text.length ∧ c.rest = text.drop c.offset

theorem within_skip {text : Bytes} {c : TypeCursor} (h : c.Within text) (n : Nat) :
    (c.skip n).Within text := by
  obtain ⟨hoffset, hrest⟩ := h
  have hskip : (c.skip n).offset = min n (text.length - c.offset) + c.offset := by
    simp [skip, offset, hrest]
  refine ⟨by omega, ?_⟩
  rw [rest_skip, hskip, hrest, List.drop_drop]
  by_cases hn : n ≤ text.length - c.offset
  · rw [Nat.min_eq_left hn, Nat.add_comm]
  · -- Behind the end there is nothing.
    rw [List.drop_of_length_le (by omega), List.drop_of_length_le (by omega)]

end TypeCursor

namespace TypeList

/-- Segments are found where their offsets say. -/
theorem segments_occursAt {text : Bytes} {c : TypeCursor} (h : c.Within text) :
    ∀ segment ∈ segments c, segment.2.OccursAt segment.1 text := by
  fun_induction segments c with
  | case1 c here hend => simp
  | case2 c here hmore ih =>
      have hhere : here.Within text := TypeCursor.within_skip h _
      intro segment hsegment
      rcases List.mem_cons.1 hsegment with rfl | hsegment
      · refine ⟨hhere.1, ?_⟩
        rw [← hhere.2]
        exact List.take_prefix _ _
      · refine ih ?_ segment hsegment
        exact TypeCursor.within_skip
          (TypeCursor.within_skip (TypeCursor.within_skip hhere _) _) _

/-- The types in a text that is held are held. -/
theorem ofText_isIn {lines : List DocLine} {text : Bytes} {origin : Position}
    (h : HoldsAt lines origin text) (count : UInt32) :
    ∀ type ∈ (ofText text origin count).types, type.IsIn lines := by
  intro type htype
  have hmem := List.mem_of_mem_filter (List.mem_of_mem_filter htype)
  obtain ⟨segment, hsegment, rfl⟩ := List.mem_map.1 hmem
  have hoccurs := segments_occursAt (c := { rest := text }) ⟨Nat.zero_le _, rfl⟩ segment hsegment
  exact ⟨h.occurs ((strip_occursAt segment.2).trans hoccurs), (Position.right_right _ _ _).symm⟩

end TypeList

/-! ### Parameters -/

namespace ParameterEntry

/-- The lines of an entry: its header and its description. -/
def pieces (entry : ParameterEntry) : List DocLine := entry.header :: entry.description

/-- The name and the types of an entry. -/
def fragments (entry : ParameterEntry) : List Fragment :=
  entry.name.toList ++ entry.types.getD []

variable {lines : List DocLine}

theorem headerName_isIn {header : DocLine} (h : header.IsIn lines) :
    ∀ name ∈ headerName header, name.IsIn lines := by
  intro name hname
  unfold headerName at hname
  dsimp only at hname
  split at hname
  · cases hname
  · cases hname
    have hpart : OccursAt (header.text.takeWhile (· ≠ byte ':')) 0 header.text :=
      ⟨Nat.zero_le _, List.takeWhile_prefix _⟩
    have hvalue := (strip_occursAt (header.text.takeWhile (· ≠ byte ':'))).trans hpart
    rw [Nat.zero_add] at hvalue
    exact h.fragment hvalue

theorem headerTypes_isIn {header : DocLine} (h : header.IsIn lines) :
    ∀ list ∈ headerTypes header, ∀ type ∈ list.types, type.IsIn lines := by
  intro list hlist
  unfold headerTypes at hlist
  dsimp only at hlist
  split at hlist
  · cases hlist
  next hvalue =>
    cases hlist
    have hle : (header.text.takeWhile (· ≠ byte ':')).length + 1 ≤ header.text.length := by
      -- Something stands behind the colon.
      refine Nat.le_of_not_lt fun hlt => hvalue ?_
      rw [List.drop_of_length_le (Nat.le_of_lt hlt)]
      rfl
    exact TypeList.ofText_isIn (h.occurs ((strip_occursAt _).trans (occursAt_drop hle))) 0

/-- A header line is taken apart into pieces of it. -/
theorem ofHeader_isIn {header : DocLine} (h : header.IsIn lines) (bareTypes : Bool) :
    (ofHeader header bareTypes).header = header ∧
      ∀ f ∈ (ofHeader header bareTypes).fragments, f.IsIn lines := by
  have hname := headerName_isIn h
  have htypes := headerTypes_isIn h
  unfold ofHeader
  dsimp only
  cases hlist : headerTypes header with
  | some list =>
      refine ⟨rfl, fun f hf => ?_⟩
      rcases List.mem_append.1 hf with hf | hf
      · exact hname f (Option.mem_toList.1 hf)
      · exact htypes list hlist f hf
  | none =>
      cases hvalue : headerName header with
      | none => exact ⟨rfl, by simp [fragments]⟩
      | some value =>
          have hvalueIn := hname value hvalue
          cases bareTypes with
          | true =>
              refine ⟨rfl, fun f hf => ?_⟩
              have hf' : f = value := by simpa [fragments] using hf
              rw [hf']
              exact hvalueIn
          | false =>
              refine ⟨rfl, fun f hf => ?_⟩
              have hf' : f = value := by simpa [fragments] using hf
              rw [hf']
              exact hvalueIn

theorem ofLines_isIn {line : DocLine} {description : Paragraph} (hline : line ∈ lines)
    (hdescription : ∀ l ∈ description, l ∈ lines) (indent : Nat) (bareTypes : Bool) :
    (∀ l ∈ (ofLines line description indent bareTypes).pieces, l.IsIn lines) ∧
      ∀ f ∈ (ofLines line description indent bareTypes).fragments, f.IsIn lines := by
  have hheader := (DocLine.isIn_of_mem hline).dedent indent
  obtain ⟨hsame, hfragments⟩ := ofHeader_isIn hheader bareTypes
  refine ⟨fun l hl => ?_, hfragments⟩
  rcases List.mem_cons.1 hl with rfl | hl
  · exact hsame.symm ▸ hheader
  · exact DocLine.isIn_of_mem (hdescription l hl)

/-- The pieces of the entries of a section body are held by its lines. -/
theorem entries_isIn (indent : Nat) (bareTypes : Bool) {body : List DocLine}
    (hbody : ∀ line ∈ body, line ∈ lines) :
    ∀ entry ∈ entries indent bareTypes body,
      (∀ l ∈ entry.pieces, l.IsIn lines) ∧ ∀ f ∈ entry.fragments, f.IsIn lines := by
  fun_induction entries indent bareTypes body with
  | case1 => simp
  | case2 line rest _ ih => exact ih fun l hl => hbody l (List.mem_cons_of_mem line hl)
  | case3 line rest _ ih =>
      have hrest : ∀ l ∈ rest, l ∈ lines := fun l hl => hbody l (List.mem_cons_of_mem line hl)
      intro entry hentry
      rcases List.mem_cons.1 hentry with rfl | hentry
      · exact ofLines_isIn (hbody line List.mem_cons_self)
          (fun l hl => hrest l ((List.takeWhile_prefix _).subset hl)) indent bareTypes
      · exact ih (fun l hl => hrest l ((List.dropWhile_suffix _).subset hl)) entry hentry

end ParameterEntry

end DocLint
