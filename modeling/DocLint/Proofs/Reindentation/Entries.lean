import DocLint.Docstring.SeeAlso
import DocLint.Docstring.ParameterList
import DocLint.Proofs.Reindentation.Lines

/-!
# Reindented entries

The bodies of sections are read with the indentation of the docstring taken away, so that the
entries of an indented body are the old ones at the moved places.

* `ParameterEntry.entries_indented`: descriptions are told from headers by comparing indentations,
  which all grow alike.
* `SeeAlsoEntry.entries_indented`, `SeeAlsoEntry.flaws_indented`: the roles of the lines stay.
-/

namespace DocLint

open Bytes

/-! ### Parameters -/

namespace TypeList

/-- The types at the moved place. -/
def shift (n k : Nat) (list : TypeList) : TypeList :=
  { list with types := list.types.map (Fragment.shift n k) }

theorem ofText_shift (n k : Nat) (text : Bytes) (origin : Position) (count : UInt32) :
    ofText text (origin.shift n k) count = (ofText text origin count).shift n k := by
  have hsegment : ofSegment (origin.shift n k) = Fragment.shift n k ∘ ofSegment origin := by
    funext segment
    simp [ofSegment, Fragment.shift, Span.shift, Position.right_shift]
  have hvalue (p : Bytes → Bool) :
      ((fun type : Fragment => p type.value) ∘ Fragment.shift n k) = fun type => p type.value := rfl
  simp only [ofText, shift, hsegment, ← List.map_map, List.filter_map, List.countP_map]
  rfl

end TypeList

namespace ParameterEntry

/-- The entry at the moved place; its description consists of whole lines. -/
def shift (n k : Nat) (entry : ParameterEntry) : ParameterEntry where
  header := entry.header.shift n k
  name := entry.name.map (Fragment.shift n k)
  types := entry.types.map fun types => types.map (Fragment.shift n k)
  optionalCount := entry.optionalCount
  description := entry.description.map (DocLine.indented n k)
  span := entry.span.shift n k

theorem headerName_shift (n k : Nat) (header : DocLine) :
    headerName (header.shift n k) = (headerName header).map (Fragment.shift n k) := by
  unfold headerName
  rw [show (header.shift n k).text = header.text from rfl]
  dsimp only
  split
  · rfl
  · rw [DocLine.fragment_shift]
    rfl

theorem headerTypes_shift (n k : Nat) (header : DocLine) :
    headerTypes (header.shift n k) = (headerTypes header).map (TypeList.shift n k) := by
  unfold headerTypes
  rw [show (header.shift n k).text = header.text from rfl]
  dsimp only
  split
  · rfl
  · rw [DocLine.column_shift, TypeList.ofText_shift]
    rfl

/-- The span of an entry is known with its description only. -/
theorem ofHeader_shift (n k : Nat) (header : DocLine) (bareTypes : Bool) :
    ofHeader (header.shift n k) bareTypes =
      { (ofHeader header bareTypes).shift n k with span := {} } := by
  unfold ofHeader
  rw [headerName_shift, headerTypes_shift]
  dsimp only
  cases headerTypes header with
  | some list => simp [shift, TypeList.shift]
  | none =>
      cases headerName header with
      | none => simp [shift]
      | some name => cases bareTypes <;> simp [shift]

theorem ofLines_indented (n k indent : Nat) (bareTypes : Bool) (line : DocLine)
    (description : Paragraph) :
    ofLines (line.indented n k) (description.map (DocLine.indented n k)) (indent + k) bareTypes =
      (ofLines line description indent bareTypes).shift n k := by
  unfold ofLines
  rw [DocLine.dedent_indented, List.getLast?_map]
  dsimp only
  rw [ofHeader_shift]
  cases description.getLast? with
  | none =>
      simp only [Option.map_none, DocLine.stop_shift, shift, Span.shift]
      rfl
  | some last =>
      simp only [Option.map_some, DocLine.indented, DocLine.stop_push last (Nat.le_refl k), shift,
        Span.shift]
      rfl

theorem describes_indented (n k indentation : Nat) (line : DocLine) :
    describes (k + indentation) (line.indented n k) = describes indentation line := by
  rw [describes, DocLine.indented, DocLine.isBlank_push, DocLine.leading_push, describes]
  congr 1
  simp

/-- The entries of an indented body are the entries of the body at the moved place. -/
theorem entries_indented (n k indent : Nat) (bareTypes : Bool) (body : List DocLine) :
    entries (indent + k) bareTypes (body.map (DocLine.indented n k)) =
      (entries indent bareTypes body).map (shift n k) := by
  fun_induction entries indent bareTypes body with
  | case1 => simp [entries]
  | case2 line rest hblank ih =>
      rw [List.map_cons, entries, if_pos (by simpa [DocLine.indented] using hblank), ih]
  | case3 line rest hblank ih =>
      -- Header and lines gain as many spaces, so that the same lines are further in.
      have hdescribes : describes (line.indented n k).leading ∘ DocLine.indented n k =
          describes line.leading := by
        funext l
        rw [Function.comp_apply, DocLine.indented, DocLine.leading_push]
        exact describes_indented n k line.leading l
      rw [List.map_cons, entries, if_neg (by simpa [DocLine.indented] using hblank),
        List.takeWhile_map, List.dropWhile_map, hdescribes, ofLines_indented, ih, List.map_cons]

end ParameterEntry

/-! ### References -/

/-- The flaw at the moved place. -/
def Flaw.shift (n k : Nat) : Flaw → Flaw
  | crowdedSection header => .crowdedSection (header.shift n k)
  | underlineLength header underline => .underlineLength (header.shift n k) (underline.shift n k)
  | strayMark position mark => .strayMark (position.shift n k) mark

/-- The name at the moved place. -/
def SeeAlsoName.shift (n k : Nat) (name : SeeAlsoName) : SeeAlsoName :=
  ⟨name.name.shift n k, name.role⟩

namespace SeeAlsoEntry

/-- The entry at the moved place; its description consists of pieces of lines. -/
def shift (n k : Nat) (entry : SeeAlsoEntry) : SeeAlsoEntry where
  names := entry.names.map (SeeAlsoName.shift n k)
  description := entry.description.map fun lines => lines.map (DocLine.shift n k)
  span := entry.span.shift n k

end SeeAlsoEntry

namespace SeeAlsoRole

/-- The role at the moved place. -/
def shift (n k : Nat) : SeeAlsoRole → SeeAlsoRole
  | ignored => .ignored
  | continuation line => .continuation (line.shift n k)
  | entry e flaws => .entry (e.shift n k) (flaws.map (Flaw.shift n k))

theorem ofReferences_indented (n k indent : Nat) (line : DocLine) (found : SeeAlsoLine) :
    ofReferences (line.indented n k) (indent + k) found =
      (ofReferences line indent found).shift n k := by
  have hmin : min (indent + k) (line.indented n k).leading = k + min indent line.leading := by
    rw [DocLine.indented, DocLine.leading_push]
    omega
  have htext (j : Nat) : (line.indented n k).text.drop (k + j) = line.text.drop j :=
    drop_spaces_append k j line.text
  have hcolumn (j : Nat) : (line.indented n k).column (k + j) = (line.column j).shift n k :=
    DocLine.column_push line (Nat.le_refl k) j
  have hfragment (j : Nat) (value : Bytes) :
      (line.indented n k).fragment (k + j) value = (line.fragment j value).shift n k :=
    DocLine.fragment_push line (Nat.le_refl k) j value
  have hleading : (line.indented n k).leading = k + line.leading := DocLine.leading_push line
  unfold ofReferences
  simp only [hmin, htext, Nat.add_assoc, hcolumn, hfragment]
  rw [hleading, hcolumn]
  simp only [shift, SeeAlsoEntry.shift, SeeAlsoRole.entry.injEq, SeeAlsoEntry.mk.injEq]
  refine ⟨⟨?_, ?_, rfl⟩, ?_⟩
  · rw [List.map_map]
    rfl
  · cases found.description with
    | none => rfl
    | some offset => rfl
  -- Only a mark without a description behind it is a flaw.
  · cases found.stray with
    | none => rfl
    | some offset =>
        cases found.description with
        | none => rfl
        | some _ => rfl

theorem ofLine_indented (n k indent : Nat) (line : DocLine) :
    ofLine (indent + k) (line.indented n k) = (ofLine indent line).shift n k := by
  have hmin : min (indent + k) (line.indented n k).leading = k + min indent line.leading := by
    rw [DocLine.indented, DocLine.leading_push]
    omega
  have htext (j : Nat) : (line.indented n k).text.drop (k + j) = line.text.drop j :=
    drop_spaces_append k j line.text
  have hblank : (line.indented n k).isBlank = line.isBlank := DocLine.isBlank_push line
  unfold ofLine
  simp only [hmin, htext, hblank]
  split
  · rfl
  · split
    · have hleading : (line.indented n k).leading = k + line.leading := DocLine.leading_push line
      rw [hleading, show strip (line.indented n k).text = strip line.text from
        DocLine.strip_push line, show (line.indented n k).column (k + line.leading) =
        (line.column line.leading).shift n k from DocLine.column_push line (Nat.le_refl k) _]
      rfl
    · cases SeeAlsoLine.ofText? (line.text.drop (min indent line.leading)) with
      | none => rfl
      | some found => exact ofReferences_indented n k indent line found

end SeeAlsoRole

namespace SeeAlsoEntry

theorem extend_shift (n k : Nat) (entry : SeeAlsoEntry) (lines : List DocLine) :
    (entry.shift n k).extend (lines.map (DocLine.shift n k)) = (entry.extend lines).shift n k := by
  unfold extend
  rw [List.getLast?_map]
  cases lines.getLast? with
  | none => rfl
  | some last =>
      simp only [Option.map_some, shift, DocLine.stop_shift, Span.shift]
      cases entry.description with
      | none => rfl
      | some p => simp

theorem ofRoles_shift (n k : Nat) (roles : List SeeAlsoRole) :
    ofRoles (roles.map (SeeAlsoRole.shift n k)) = (ofRoles roles).map (shift n k) := by
  have hisEntry : (fun role => !role.isEntry) ∘ SeeAlsoRole.shift n k =
      fun role => !role.isEntry := by
    funext role
    cases role <;> rfl
  have hcontinuation : (fun role => (SeeAlsoRole.shift n k role).continuation?) =
      fun role => role.continuation?.map (DocLine.shift n k) := by
    funext role
    cases role <;> rfl
  induction roles with
  | nil => rfl
  | cons role rest ih =>
      cases role with
      | ignored => exact ih
      | continuation line => exact ih
      | entry e flaws =>
          simp only [List.map_cons, SeeAlsoRole.shift, ofRoles, ih, List.takeWhile_map, hisEntry,
            List.filterMap_map, ← extend_shift, List.map_filterMap]
          congr 3

theorem entries_indented (n k indent : Nat) (body : List DocLine) :
    entries (indent + k) (body.map (DocLine.indented n k)) =
      (entries indent body).map (shift n k) := by
  rw [entries, entries, ← ofRoles_shift, List.map_map, List.map_map]
  congr 1
  exact List.map_congr_left fun line _ => SeeAlsoRole.ofLine_indented n k indent line

theorem flaws_indented (n k indent : Nat) (body : List DocLine) :
    flaws (indent + k) (body.map (DocLine.indented n k)) =
      (flaws indent body).map (Flaw.shift n k) := by
  rw [flaws, flaws, List.flatMap_map, List.map_flatMap]
  refine List.flatMap_congr fun line _ => ?_
  rw [SeeAlsoRole.ofLine_indented]
  cases SeeAlsoRole.ofLine indent line <;> rfl

end SeeAlsoEntry

end DocLint
