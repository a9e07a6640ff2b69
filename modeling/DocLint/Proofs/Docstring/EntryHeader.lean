import DocLint.Docstring.ParameterList
import DocLint.Proofs.Text.Edges

/-!
# The headers of entries

The header of an entry stands behind the margin: a name, and a type declaration behind a colon
between spaces if there is one.  It is read as what it was made of.

* `DocLine.IsHeader`: a line that begins an entry.
* `headerName_of_text`, `headerTypes_of_text`: what is read of a header with a type.
* `headerName_of_bare`, `headerTypes_of_bare`: what is read of a header without one.
* `entries_append`: an entry ends in front of the first line that does not describe it.
-/

namespace DocLint

open Bytes

/-! ### Texts -/

/-- A space behind a text is stripped. -/
theorem strip_append_space {s : Bytes} (h : strip s = s) (hne : s ≠ []) :
    strip (s ++ [space]) = s := by
  have hstart : stripStart (s ++ [space]) = s ++ [space] := by
    rw [stripStart, List.dropWhile_append, ← stripStart, stripStart_eq_self h,
      if_neg (by simpa using hne)]
  rw [strip, hstart, stripEnd, List.reverse_append, List.reverse_singleton, List.singleton_append,
    List.dropWhile_cons_of_pos rfl, ← stripEnd, stripEnd_eq_self h]

/-- A text without whitespace at its ends has none in front, whatever stands behind it. -/
theorem leading_append_of_strip {s : Bytes} (h : strip s = s) (hne : s ≠ []) (t : Bytes) :
    leading (s ++ t) = 0 := by
  obtain ⟨c, r, rfl⟩ := List.exists_cons_of_ne_nil hne
  have hleading := leading_eq_zero h
  have hc : isSpace c = false := by
    by_contra hspace
    rw [Bool.not_eq_false] at hspace
    rw [leading, List.takeWhile_cons_of_pos hspace] at hleading
    cases hleading
  rw [leading, List.cons_append, List.takeWhile_cons_of_neg (by simp [hc])]
  rfl

/-- A text that begins and ends with texts without whitespace at their ends. -/
theorem strip_append {s t : Bytes} (hs : strip s = s) (hsne : s ≠ []) (ht : strip t = t)
    (htne : t ≠ []) (mid : Bytes) : strip (s ++ (mid ++ t)) = s ++ (mid ++ t) := by
  have hstart : stripStart (s ++ (mid ++ t)) = s ++ (mid ++ t) := by
    rw [← drop_leading, leading_append_of_strip hs hsne, List.drop_zero]
  have hblank : isBlank t = false := by
    rw [← Bool.not_eq_true, ← strip_eq_nil_iff, ht]
    exact htne
  rw [strip, hstart, ← List.append_assoc, stripEnd_append_of_not_blank _ hblank,
    stripEnd_eq_self ht]

theorem takeWhile_ne_colon_append {s t : Bytes} (h : byte ':' ∉ s) :
    (s ++ t).takeWhile (fun c => decide (c ≠ byte ':')) =
      s ++ t.takeWhile fun c => decide (c ≠ byte ':') := by
  refine List.takeWhile_append_of_pos fun c hc => ?_
  rw [decide_eq_true_eq]
  rintro rfl
  exact h hc

/-! ### Lines -/

/-- The line is a header behind the margin. -/
structure DocLine.IsHeader (header : DocLine) (indent : Nat) (head : Bytes) : Prop where
  text_eq : header.text = spaces indent ++ head
  head_leading : Bytes.leading head = 0
  head_not_blank : Bytes.isBlank head = false

namespace DocLine.IsHeader

variable {header : DocLine} {indent : Nat} {head : Bytes}

theorem leading_eq (h : header.IsHeader indent head) : header.leading = indent := by
  rw [leading, h.text_eq, leading_spaces_append, h.head_leading, Nat.add_zero]

theorem isBlank_eq (h : header.IsHeader indent head) : header.isBlank = false := by
  rw [isBlank, h.text_eq, isBlank_spaces_append, h.head_not_blank]

theorem text_dedent (h : header.IsHeader indent head) : (header.dedent indent).text = head := by
  rw [dedent, h.leading_eq, Nat.min_self, drop, h.text_eq]
  exact List.drop_left' (length_spaces indent)

/-- A header does not describe another one behind the same margin. -/
theorem not_describes (h : header.IsHeader indent head) :
    ParameterEntry.describes indent header = false := by
  rw [ParameterEntry.describes, h.isBlank_eq, h.leading_eq, Bool.false_or]
  exact decide_eq_false (Nat.lt_irrefl indent)

end DocLine.IsHeader

/-! ### Names and types -/

/-- A text that is read as a name: it stands in front of the first colon, stripped. -/
structure IsEntryName (name : Bytes) : Prop where
  ne_nil : name ≠ []
  no_colon : byte ':' ∉ name
  strip_eq : strip name = name

instance (name : Bytes) : Decidable (IsEntryName name) :=
  decidable_of_iff (name ≠ [] ∧ byte ':' ∉ name ∧ strip name = name)
    ⟨fun ⟨hne, hcolon, hstrip⟩ => ⟨hne, hcolon, hstrip⟩,
      fun h => ⟨h.ne_nil, h.no_colon, h.strip_eq⟩⟩

theorem IsEntryName.leading_append {name : Bytes} (h : IsEntryName name) (t : Bytes) :
    leading (name ++ t) = 0 :=
  leading_append_of_strip h.strip_eq h.ne_nil t

theorem IsEntryName.not_blank_append {name : Bytes} (h : IsEntryName name) (t : Bytes) :
    isBlank (name ++ t) = false := by
  have hblank : isBlank name = false := by
    rw [← Bool.not_eq_true, ← strip_eq_nil_iff, h.strip_eq]
    exact h.ne_nil
  rw [isBlank, List.all_append, ← isBlank, hblank, Bool.false_and]

/-- A name is a header, whatever stands behind it. -/
theorem IsEntryName.isHeader {name : Bytes} (h : IsEntryName name) {header : DocLine}
    {indent : Nat} {t : Bytes} (htext : header.text = spaces indent ++ (name ++ t)) :
    header.IsHeader indent (name ++ t) :=
  ⟨htext, h.leading_append t, h.not_blank_append t⟩

namespace ParameterEntry

variable {header : DocLine} {name type : Bytes}

theorem headerName_of_text (h : header.text = name ++ (ascii " : " ++ type))
    (hname : IsEntryName name) : (headerName header).map Fragment.value = some name := by
  have hpart : header.text.takeWhile (fun c => decide (c ≠ byte ':')) = name ++ [space] := by
    rw [h, takeWhile_ne_colon_append hname.no_colon]
    rfl
  have hstrip := strip_append_space hname.strip_eq hname.ne_nil
  unfold headerName
  simp only [hpart, hstrip, List.isEmpty_eq_false_iff.2 hname.ne_nil, Bool.false_eq_true, if_false,
    Option.map_some, DocLine.fragment]

theorem headerTypes_of_text (h : header.text = name ++ (ascii " : " ++ type))
    (hname : IsEntryName name) (htype : strip type = type) (hne : type ≠ []) :
    ∃ origin, headerTypes header = some (.ofText type origin 0) := by
  have hpart : header.text.takeWhile (fun c => decide (c ≠ byte ':')) = name ++ [space] := by
    rw [h, takeWhile_ne_colon_append hname.no_colon]
    rfl
  have hdrop : header.text.drop ((name ++ [space]).length + 1) = spaces 1 ++ type := by
    have hsplit : header.text = (name ++ [space, byte ':']) ++ (spaces 1 ++ type) := by
      rw [h, List.append_assoc]
      rfl
    rw [hsplit]
    exact List.drop_left' (by simp)
  unfold headerTypes
  simp only [hpart, hdrop, strip_spaces_append, htype, List.isEmpty_eq_false_iff.2 hne,
    Bool.false_eq_true, if_false]
  exact ⟨_, rfl⟩

theorem takeWhile_bare (h : header.text = name) (hname : IsEntryName name) :
    header.text.takeWhile (fun c => decide (c ≠ byte ':')) = name := by
  have hall := takeWhile_ne_colon_append (t := []) hname.no_colon
  rw [List.append_nil] at hall
  rw [h, hall]
  exact List.append_nil name

theorem headerName_of_bare (h : header.text = name) (hname : IsEntryName name) :
    (headerName header).map Fragment.value = some name := by
  unfold headerName
  simp only [takeWhile_bare h hname, hname.strip_eq, List.isEmpty_eq_false_iff.2 hname.ne_nil,
    Bool.false_eq_true, if_false, Option.map_some, DocLine.fragment]

theorem headerTypes_of_bare (h : header.text = name) (hname : IsEntryName name) :
    headerTypes header = none := by
  have hdrop : header.text.drop (name.length + 1) = [] := by
    rw [h]
    exact List.drop_eq_nil_of_le (Nat.le_succ _)
  unfold headerTypes
  simp only [takeWhile_bare h hname, hdrop]
  rfl

/-- An entry takes in the lines that describe it, up to one that does not. -/
theorem entries_append {indent : Nat} {bareTypes : Bool} {head : Bytes} {description : Paragraph}
    {rest : List DocLine} (hheader : header.IsHeader indent head)
    (hdescription : ∀ line ∈ description, describes indent line = true)
    (hrest : ∀ line ∈ rest.head?, describes indent line = false) :
    entries indent bareTypes (header :: (description ++ rest)) =
      ofLines header description indent bareTypes :: entries indent bareTypes rest := by
  obtain ⟨htake, hdrop⟩ := span_append hdescription hrest
  rw [entries, hheader.isBlank_eq, if_neg Bool.false_ne_true, hheader.leading_eq, htake, hdrop]

end ParameterEntry

end DocLint
