import DocLint.Proofs.Canonical.Entries
import DocLint.Proofs.Canonical.Reading

/-!
# The contents of canonical docstrings

The sections that are read have the names that were written, in the same order, and their entries
document the parameters and the result.

* `names`, `IsRead.map_name`: the names of the sections.
* `IsRead.parameterEntries_document`, `IsRead.returnEntries_eq`: the entries.
-/

namespace DocLint

open Bytes

namespace CanonicalText

/-! ### Sections by name -/

/-- The names of the sections: they depend on nothing but whether there are parameters. -/
def names (t : CanonicalText) : List Bytes :=
  if t.parameters.isEmpty then [SectionName.returns, SectionName.yields, SectionName.examples]
  else sectionNames

theorem map_fst_sections (t : CanonicalText) (indent : Nat) :
    (t.sections indent).map Prod.fst = t.names := by
  rw [sections, names]
  split <;> rfl

section Chunks

variable {indent : Nat} {chunks : List SectionLines} {sections : List (Bytes × List Bytes)}

/-- The lines read as sections have the names of the sections that they hold. -/
theorem map_name_of_holds (hnames : ∀ s ∈ sections, s.1 ∈ sectionNames)
    (h : List.Forall₂ (fun c s => c.Holds indent s) chunks sections) :
    chunks.map SectionLines.name = sections.map Prod.fst := by
  induction h with
  | nil => rfl
  | cons hc _ ih =>
      rw [List.map_cons, List.map_cons, hc.name_eq (hnames _ List.mem_cons_self),
        ih fun s hs => hnames s (List.mem_cons_of_mem _ hs)]

/-- The first section of a name is held by the lines of that name. -/
theorem exists_find?_of_holds (hnames : ∀ s ∈ sections, s.1 ∈ sectionNames)
    (h : List.Forall₂ (fun c s => c.Holds indent s) chunks sections) {name : Bytes}
    {body : List Bytes} (hfind : sections.find? (fun s => s.1 == name) = some (name, body)) :
    ∃ c, chunks.find? (fun c => c.name == name) = some c ∧ c.Holds indent (name, body) := by
  induction h with
  | nil => cases hfind
  | @cons c s chunks sections hc _ ih =>
      have hname := hc.name_eq (hnames s List.mem_cons_self)
      cases hs : s.1 == name with
      | true =>
          rw [List.find?_cons, hs] at hfind
          cases hfind
          exact ⟨c, by rw [List.find?_cons, hname, hs], hc⟩
      | false =>
          rw [List.find?_cons, hs] at hfind
          rw [List.find?_cons, hname, hs]
          exact ih (fun s hs => hnames s (List.mem_cons_of_mem _ hs)) hfind

end Chunks

namespace IsRead

variable {t : CanonicalText} {indent blank : Nat} {doc : Docstring}

/-- The sections have the names that were written. -/
theorem map_name (h : t.IsRead indent blank doc) (hs : t.Sound) :
    doc.sections.map (fun s => s.name.value) = t.names := by
  obtain ⟨chunks, hsections, hchunks⟩ := h.sections
  rw [← t.map_fst_sections indent,
    ← map_name_of_holds (fun s hmem => (hs.mem_sections hmem).1) hchunks, hsections, List.map_map]
  rfl

theorem hasSection_eq (h : t.IsRead indent blank doc) (hs : t.Sound) (name : Bytes) :
    doc.hasSection name = t.names.contains name := by
  rw [← h.map_name hs, Docstring.hasSection, Docstring.section?, List.isSome_find?,
    List.contains_eq_any_beq, List.any_map]
  congr 1
  funext s
  exact Bool.beq_comm

/-- The lines of a section that was written are found under its name. -/
theorem exists_section? (h : t.IsRead indent blank doc) (hs : t.Sound) {name : Bytes}
    {body : List Bytes}
    (hfind : (t.sections indent).find? (fun s => s.1 == name) = some (name, body)) :
    ∃ c : SectionLines, doc.section? name = some (c.toSection indent) ∧
      c.Holds indent (name, body) ∧ c.name = name := by
  obtain ⟨chunks, hsections, hchunks⟩ := h.sections
  have hnames : ∀ s ∈ t.sections indent, s.1 ∈ sectionNames := fun s hmem =>
    (hs.mem_sections hmem).1
  obtain ⟨c, hc, hholds⟩ := exists_find?_of_holds hnames hchunks hfind
  have hname : c.name = name := by simpa using List.find?_some hc
  refine ⟨c, ?_, hholds, hname⟩
  rw [Docstring.section?, hsections, List.find?_map]
  have hcomp : ((fun s : DocSection => s.name.value == name) ∘ SectionLines.toSection indent) =
      fun c => c.name == name := rfl
  rw [hcomp, hc]
  rfl

/-! ### Entries -/

/-- The entries of a section that was written are those of its lines. -/
theorem exists_entries (h : t.IsRead indent blank doc) (hs : t.Sound) {name : Bytes}
    {body : List Bytes} {bareTypes : Bool}
    (hfind : (t.sections indent).find? (fun s => s.1 == name) = some (name, body))
    (hcontents : ∀ lines, SectionContents.ofBody name indent lines =
      .parameters (ParameterEntry.entries indent bareTypes lines)) :
    ∃ front last, doc.entries name = ParameterEntry.entries indent bareTypes (front ++ [last]) ∧
      front.map DocLine.text = body ∧ last.isBlank = true := by
  obtain ⟨c, hc, hholds, hname⟩ := h.exists_section? hs hfind
  obtain ⟨front, last, hbody, htexts, hlast⟩ := hholds.body
  refine ⟨front, last, ?_, htexts, hlast⟩
  rw [Docstring.entries, hc]
  dsimp only
  rw [DocSection.parameters, SectionLines.toSection, hname, hbody, hcontents]

theorem entries_of_missing {name : Bytes} (h : doc.hasSection name = false) :
    doc.entries name = [] := by
  rw [Docstring.hasSection, Option.isSome_eq_false_iff, Option.isNone_iff_eq_none] at h
  rw [Docstring.entries, h]

/-- The entries of the parameter section document the parameters. -/
theorem parameterEntries_document (h : t.IsRead indent blank doc) (hs : t.Sound) :
    List.Forall₂ ParameterEntry.Documents (Check.parameterEntries doc) t.parameters ∧
      ∀ entry ∈ (Check.parameterEntries doc).dropLast, entry.description.blankBelow = 0 := by
  cases hempty : t.parameters.isEmpty with
  | true =>
      have hmissing : doc.hasSection SectionName.parameters = false := by
        rw [h.hasSection_eq hs, names, hempty]
        decide
      rw [Check.parameterEntries, entries_of_missing hmissing, List.isEmpty_iff.1 hempty]
      exact ⟨.nil, by simp⟩
  | false =>
      have hfind : (t.sections indent).find? (fun s => s.1 == SectionName.parameters) =
          some (SectionName.parameters, t.parameterLines indent) := by
        rw [CanonicalText.sections, hempty, if_neg Bool.false_ne_true, List.singleton_append,
          List.find?_cons_of_pos (by simp)]
      obtain ⟨front, last, hentries, htexts, hlast⟩ :=
        h.exists_entries hs hfind fun lines => if_pos (by decide)
      rw [Check.parameterEntries, hentries]
      refine ParameterEntry.documents_entries hlast (fun p hp => ?_) htexts
      exact ⟨hs.parameter_name p hp, hs.parameter_type p hp,
        (hs.parameter_description p hp).not_blank⟩

theorem otherEntries_eq (h : t.IsRead indent blank doc) (hs : t.Sound) :
    Check.otherEntries doc = [] := by
  refine entries_of_missing ?_
  rw [h.hasSection_eq hs, names]
  split <;> decide

/-- The only entry about what is returned has no name. -/
theorem returnEntries_eq (h : t.IsRead indent blank doc) (hs : t.Sound) :
    ∃ entry, Check.returnEntries doc = [entry] ∧ entry.name = none ∧
      entry.description.Says t.returnDescription := by
  have hfind : (t.sections indent).find? (fun s => s.1 == SectionName.returns) =
      some (SectionName.returns, entryLines indent t.returnType t.returnDescription) := by
    -- The section about parameters, if there is one, comes first but has another name.
    have hbehind : ∀ s ∈ (if t.parameters.isEmpty then []
        else [(SectionName.parameters, t.parameterLines indent)]),
        ¬ (s.1 == SectionName.returns) = true := by
      split
      · simp
      · intro s hmem
        rw [List.mem_singleton.1 hmem]
        show ¬ (SectionName.parameters == SectionName.returns) = true
        decide
    rw [CanonicalText.sections, List.find?_append, List.find?_eq_none.2 hbehind, Option.none_or,
      List.find?_cons_of_pos (by simp)]
  obtain ⟨front, last, hentries, htexts, hlast⟩ := h.exists_entries hs hfind fun lines =>
    (if_neg (by decide)).trans (if_pos (by decide))
  rw [Check.returnEntries, hentries]
  exact ParameterEntry.entries_of_bareType hlast hs.returnType.isName htexts

end IsRead

end CanonicalText

end DocLint
