import DocLint.Proofs.Printing.Types

/-!
# Parameter lists as they are printed

An entry is printed as a header behind the margin, with its description below it.  The header is a
name, followed by a colon and a type declaration if the entry has types.  The entries that are read
back are those that were printed, with their names, their types and their descriptions.

* `EntryText.lines`, `EntryText.Sound`: how an entry is printed, and what it must be like.
* `entries_print`: printed entries are read back.
-/

namespace DocLint

open Bytes

/-- An entry before it is printed. -/
structure EntryText where
  /-- Where the line of the header begins. -/
  position : Position
  name : Bytes
  types : Option TypeList.Declared
  /-- The lines below the header. -/
  description : Paragraph

namespace EntryText

/-- What stands behind the margin. -/
def header (e : EntryText) : Bytes :=
  e.name ++ match e.types with
    | none => []
    | some declared => ascii " : " ++ declared.print

/-- The header line of the entry. -/
def headerLine (indent : Nat) (e : EntryText) : DocLine := ⟨e.position, spaces indent ++ e.header⟩

/-- The lines of the entry. -/
def lines (indent : Nat) (e : EntryText) : List DocLine := e.headerLine indent :: e.description

/-- The header can be taken apart, and the lines below it are blank or indented deeper. -/
structure Sound (indent : Nat) (e : EntryText) : Prop where
  name : IsEntryName e.name
  types : ∀ declared ∈ e.types, ∀ type ∈ declared.types, TypeList.IsType type
  description : ∀ line ∈ e.description, line.isBlank = true ∨ indent < line.leading

theorem Sound.isHeader {indent : Nat} {e : EntryText} (h : e.Sound indent) :
    (e.headerLine indent).IsHeader indent e.header :=
  h.name.isHeader rfl

end EntryText

namespace ParameterEntry

/-- The entry has the name, the types, the number of `optional` and the lines of the text. -/
structure Reads (entry : ParameterEntry) (e : EntryText) : Prop where
  name : entry.name.map Fragment.value = some e.name
  types : entry.types.map (fun types => types.map Fragment.value) =
    e.types.map TypeList.Declared.types
  optionalCount : entry.optionalCount = UInt32.ofNat (e.types.elim 0 TypeList.Declared.optionals)
  description : entry.description = e.description

/-- The entry of a printed header. -/
theorem reads_ofLines {indent : Nat} {e : EntryText} (h : e.Sound indent) :
    (ofLines (e.headerLine indent) e.description indent false).Reads e := by
  have htext := h.isHeader.text_dedent
  unfold ofLines
  dsimp only
  generalize (e.headerLine indent).dedent indent = header at htext ⊢
  obtain ⟨position, name, types, description⟩ := e
  cases types with
  | none =>
      have hbare : header.text = name := htext.trans (List.append_nil name)
      have hname := headerName_of_bare hbare h.name
      obtain ⟨value, hvalue, -⟩ := Option.map_eq_some_iff.1 hname
      have hentry : ofHeader header false = { header, name := headerName header } := by
        rw [ofHeader, headerTypes_of_bare hbare h.name, hvalue]
        rfl
      rw [hentry]
      exact ⟨hname, rfl, rfl, rfl⟩
  | some declared =>
      have htypes := h.types declared rfl
      have hname := headerName_of_text htext h.name
      obtain ⟨origin, horigin⟩ := headerTypes_of_text htext h.name
        (TypeList.Declared.strip_print htypes) (TypeList.Declared.print_ne_nil htypes)
      obtain ⟨hvalues, hcount⟩ := TypeList.Declared.ofText_print htypes origin
      have hentry : ofHeader header false =
          { header, name := headerName header,
            types := some (TypeList.ofText declared.print origin 0).types,
            optionalCount := (TypeList.ofText declared.print origin 0).optionalCount } := by
        rw [ofHeader, horigin]
      rw [hentry]
      exact ⟨hname, congrArg some hvalues, hcount, rfl⟩

/-- Printed entries are read back, in their order and with nothing else between them. -/
theorem entries_print {indent : Nat} {texts : List EntryText} (h : ∀ e ∈ texts, e.Sound indent) :
    List.Forall₂ Reads (entries indent false (texts.flatMap (EntryText.lines indent))) texts := by
  induction texts with
  | nil =>
      rw [List.flatMap_nil, entries]
      exact .nil
  | cons e texts ih =>
      have hsound := h e List.mem_cons_self
      have hrest := fun d hd => h d (List.mem_cons_of_mem e hd)
      -- The description ends in front of the next header, which stands behind the margin.
      have hstop : ∀ line ∈ (texts.flatMap (EntryText.lines indent)).head?,
          describes indent line = false := by
        intro line hline
        cases texts with
        | nil => cases hline
        | cons next texts =>
            cases hline
            exact (hrest next List.mem_cons_self).isHeader.not_describes
      have hdescription : ∀ line ∈ e.description, describes indent line = true := by
        intro line hline
        rw [describes, Bool.or_eq_true, decide_eq_true_eq]
        exact hsound.description line hline
      rw [List.flatMap_cons]
      show List.Forall₂ Reads (entries indent false
        (e.headerLine indent :: (e.description ++ texts.flatMap (EntryText.lines indent)))) _
      rw [entries_append hsound.isHeader hdescription hstop]
      exact .cons (reads_ofLines hsound) (ih hrest)

/-- Two entries, one with types that hold commas and the word inside of brackets. -/
def sampleEntries : List EntryText :=
  [{ position := ⟨2, 1⟩
     name := ascii "*args, x"
     types := some
      { first := ascii "\x7b'a', 'b'\x7d"
        more := [(.word, ascii "dict[str, int or None]"), (.comma, ascii "or_none")]
        optionals := 2 }
     description := [⟨⟨3, 1⟩, ascii "      Deep: or, not."⟩, ⟨⟨4, 1⟩, []⟩] },
   { position := ⟨5, 1⟩, name := ascii "or", types := none, description := [] }]

theorem sampleEntries_sound : ∀ e ∈ sampleEntries, e.Sound 2 := by
  intro e he
  rw [sampleEntries, List.mem_cons, List.mem_singleton] at he
  rcases he with rfl | rfl
  · exact ⟨by decide, by decide, by decide⟩
  · exact ⟨by decide, by decide, by decide⟩

theorem entries_print_sampleEntries :
    (∀ e ∈ sampleEntries, e.Sound 2) ∧
      List.Forall₂ Reads (entries 2 false (sampleEntries.flatMap (EntryText.lines 2)))
        sampleEntries :=
  ⟨sampleEntries_sound, entries_print sampleEntries_sound⟩

end ParameterEntry

end DocLint
