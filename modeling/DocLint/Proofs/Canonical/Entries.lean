import DocLint.Proofs.Canonical.Headers

/-!
# The entries of canonical sections

A header with a description of one line below it is an entry of its own: the next header ends it, and
so does the end of the section, where the blank line still belongs to the description.

* `Paragraph.Says`: a description says a text; it keeps the rules where the text does.
* `documents_entries`: the entries of a parameter section document the parameters.
* `entries_of_bareType`: a bare type has one entry without a name.
-/

namespace DocLint

open Bytes

/-! ### Descriptions -/

/-- The paragraph says the text on its first line, and nothing below it. -/
def Paragraph.Says (p : Paragraph) (text : Bytes) : Prop :=
  ∃ line blanks m, p = line :: blanks ∧ line.text = spaces m ++ text ∧
    ∀ l ∈ blanks, l.isBlank = true

namespace Paragraph.Says

variable {p : Paragraph} {text : Bytes}

/-- The description proper is the line that says the text. -/
theorem exists_beforeDirective (h : p.Says text) (htext : IsDescription text) :
    ∃ line m, p.beforeDirective = [line] ∧ line.text = spaces m ++ text := by
  obtain ⟨line, blanks, m, rfl, hline, hblanks⟩ := h
  have hdirective : line.hasVersionDirective = false := by
    rw [DocLine.hasVersionDirective_of_text hline, List.any_eq_false]
    intro directive hmem
    simp [htext.no_version directive hmem]
  have hblank : line.isBlank = false := by
    rw [DocLine.isBlank, hline, isBlank_spaces_append, htext.not_blank]
  refine ⟨line, m, ?_, hline⟩
  rw [beforeDirective, List.takeWhile_cons_of_pos (by simp [hdirective]),
    List.filter_cons_of_pos (by simp [hblank]), List.filter_eq_nil_iff.2]
  intro l hl
  simp [hblanks l ((List.takeWhile_sublist _).subset hl)]

theorem hasDescription (h : p.Says text) (htext : IsDescription text) :
    p.hasDescription = true := by
  obtain ⟨line, m, hbefore, -⟩ := h.exists_beforeDirective htext
  rw [Paragraph.hasDescription, hbefore]
  rfl

theorem startsUppercase (h : p.Says text) (htext : IsDescription text) :
    p.startsUppercase = true := by
  obtain ⟨line, m, hbefore, hline⟩ := h.exists_beforeDirective htext
  obtain ⟨c, r, rfl⟩ := List.exists_cons_of_ne_nil htext.ne_nil
  have hc : isLower c = false := htext.capital
  rw [Paragraph.startsUppercase, hbefore]
  simp only [hline, stripStart_spaces_append, stripStart_eq_self htext.strip_eq, isAlpha, hc,
    Bool.or_false]
  cases isUpper c <;> rfl

theorem endsWithPeriod (h : p.Says text) (htext : IsDescription text) :
    p.endsWithPeriod = true := by
  obtain ⟨line, m, hbefore, hline⟩ := h.exists_beforeDirective htext
  have hperiod : endsWith (strip line.text) (ascii ".") = true := by
    rw [hline, strip_spaces_append, htext.strip_eq]
    exact endsWith_singleton_iff.2 htext.period
  rw [Paragraph.endsWithPeriod, hbefore]
  simp [hperiod]

theorem not_all_isBlank (h : p.Says text) (htext : isBlank text = false) :
    p.all DocLine.isBlank = false ∧ p.blankAbove = 0 := by
  obtain ⟨line, blanks, m, rfl, hline, -⟩ := h
  have hblank : line.isBlank = false := by
    rw [DocLine.isBlank, hline, isBlank_spaces_append, htext]
  refine ⟨by rw [List.all_cons, hblank, Bool.false_and], ?_⟩
  rw [Paragraph.blankAbove, List.takeWhile_cons_of_neg (by simp [hblank])]
  rfl

/-- A description without a blank line below it. -/
theorem blankBelow_singleton {line : DocLine} (h : line.isBlank = false) :
    blankBelow [line] = 0 := by
  rw [blankBelow, List.reverse_singleton, List.takeWhile_cons_of_neg (by simp [h])]
  rfl

end Paragraph.Says

/-! ### Entries -/

theorem IsName.isHeader {header : DocLine} {indent : Nat} {name : Bytes} (hname : IsName name)
    (h : header.text = spaces indent ++ name) : header.IsHeader indent name := by
  have hheader := hname.isEntryName.isHeader (t := []) (by rw [List.append_nil, h])
  rwa [List.append_nil] at hheader

theorem isHeader_parameterHeader {header : DocLine} {indent : Nat} {p : ParameterText}
    (hname : IsName p.declared.name)
    (h : header.text = spaces indent ++ CanonicalText.parameterHeader p) :
    header.IsHeader indent (CanonicalText.parameterHeader p) :=
  hname.isEntryName.isHeader h

namespace ParameterEntry

variable {indent : Nat} {bareTypes : Bool} {header line last : DocLine}
  {head description : Bytes}

theorem describes_of_text (h : line.text = spaces (indent + 4) ++ description) :
    describes indent line = true := by
  have hdeep : indent < line.leading := by
    rw [DocLine.leading, h, leading_spaces_append]
    omega
  rw [describes, decide_eq_true hdeep, Bool.or_true]

theorem entries_of_blank (h : last.isBlank = true) : entries indent bareTypes [last] = [] := by
  rw [entries, if_pos h, entries]

/-- The blank line at the end of a section belongs to the last description. -/
theorem entries_of_last (hheader : header.IsHeader indent head)
    (hline : line.text = spaces (indent + 4) ++ description) (hlast : last.isBlank = true) :
    entries indent bareTypes [header, line, last] =
      [ofLines header [line, last] indent bareTypes] := by
  have hdescribes : ∀ l ∈ [line, last], describes indent l = true := by
    intro l hl
    rw [List.mem_cons, List.mem_singleton] at hl
    rcases hl with rfl | rfl
    · exact describes_of_text hline
    · rw [describes, hlast, Bool.true_or]
  have hentries : entries indent bareTypes (header :: ([line, last] ++ [])) = _ :=
    entries_append hheader hdescribes fun _ hl => absurd hl (Option.not_mem_none _)
  rwa [List.append_nil, entries] at hentries

/-- The next header ends an entry. -/
theorem entries_above {next : DocLine} {rest : List DocLine} {below : Bytes}
    (hheader : header.IsHeader indent head)
    (hline : line.text = spaces (indent + 4) ++ description)
    (hnext : next.IsHeader indent below) :
    entries indent bareTypes (header :: line :: next :: rest) =
      ofLines header [line] indent bareTypes :: entries indent bareTypes (next :: rest) := by
  show entries indent bareTypes (header :: ([line] ++ next :: rest)) = _
  refine entries_append hheader (fun l hl => ?_) fun l hl => ?_
  · rw [List.mem_singleton.1 hl]
    exact describes_of_text hline
  · cases hl
    exact hnext.not_describes

theorem mem_dropLast_cons {α : Type} {a b : α} {l : List α} (h : b ∈ (a :: l).dropLast) :
    b = a ∨ b ∈ l.dropLast := by
  cases l with
  | nil => cases h
  | cons c l => exact List.mem_cons.1 h

/-- The entry documents the parameter as the text does. -/
structure Documents (entry : ParameterEntry) (p : ParameterText) : Prop where
  header : entry.header.text = CanonicalText.parameterHeader p
  name : entry.name.map Fragment.value = some p.declared.name
  types : entry.types.map (fun types => types.map Fragment.value) = some (listedTypes p.type)
  optionalCount : entry.optionalCount = (TypeList.ofText p.type {} 0).optionalCount
  description : entry.description.Says p.description

/-- The entry of a parameter. -/
theorem documents_ofLines {p : ParameterText} {description : Paragraph}
    (hname : IsName p.declared.name) (htype : IsPlainType p.type)
    (hheader : header.text = spaces indent ++ CanonicalText.parameterHeader p)
    (hdescription : description.Says p.description) :
    (ofLines header description indent false).Documents p := by
  have htext := (isHeader_parameterHeader hname hheader).text_dedent
  obtain ⟨origin, horigin⟩ := headerTypes_of_text htext hname.isEntryName htype.strip_eq htype.ne_nil
  have hheaderName := headerName_of_text htext hname.isEntryName
  have hvalues := TypeList.ofText_values p.type origin {}
  have hentry : ofHeader (header.dedent indent) false =
      { header := header.dedent indent, name := headerName (header.dedent indent),
        types := some (TypeList.ofText p.type origin 0).types,
        optionalCount := (TypeList.ofText p.type origin 0).optionalCount } := by
    rw [ofHeader, horigin]
  unfold ofLines
  dsimp only
  rw [hentry]
  exact ⟨htext, hheaderName, congrArg some hvalues.1, hvalues.2, hdescription⟩

/-- The entries of a parameter section document the parameters in their order, and blank lines stand
below the last description only. -/
theorem documents_entries {parameters : List ParameterText} {front : List DocLine}
    (hlast : last.isBlank = true)
    (hsound : ∀ p ∈ parameters,
      IsName p.declared.name ∧ IsPlainType p.type ∧ isBlank p.description = false)
    (h : front.map DocLine.text = parameters.flatMap fun p =>
      CanonicalText.entryLines indent (CanonicalText.parameterHeader p) p.description) :
    List.Forall₂ Documents (entries indent false (front ++ [last])) parameters ∧
      ∀ entry ∈ (entries indent false (front ++ [last])).dropLast,
        entry.description.blankBelow = 0 := by
  -- The induction is on the parameters, each of which takes two lines.
  induction parameters generalizing front with
  | nil =>
      rw [List.flatMap_nil, List.map_eq_nil_iff] at h
      rw [h, List.nil_append, entries_of_blank hlast]
      exact ⟨.nil, by simp⟩
  | cons p more ih =>
      rw [List.flatMap_cons, CanonicalText.entryLines, List.cons_append, List.cons_append,
        List.nil_append] at h
      obtain ⟨header, _, rfl, hheader, h⟩ := List.map_eq_cons_iff.1 h
      obtain ⟨line, rest, rfl, hline, hrest⟩ := List.map_eq_cons_iff.1 h
      obtain ⟨hname, htype, hdescription⟩ := hsound p List.mem_cons_self
      have hmore := fun q hq => hsound q (List.mem_cons_of_mem p hq)
      obtain ⟨hdocuments, hbelow⟩ := ih hmore hrest
      have hhead := isHeader_parameterHeader hname hheader
      have hentry {blanks : List DocLine} (hblanks : ∀ l ∈ blanks, l.isBlank = true) :
          (ofLines header (line :: blanks) indent false).Documents p :=
        documents_ofLines hname htype hheader ⟨line, blanks, indent + 4, rfl, hline, hblanks⟩
      cases more with
      | nil =>
          rw [List.flatMap_nil, List.map_eq_nil_iff] at hrest
          have hentries : entries indent false (header :: line :: rest ++ [last]) =
              [ofLines header [line, last] indent false] := by
            rw [hrest]
            exact entries_of_last hhead hline hlast
          rw [hentries]
          exact ⟨.cons (hentry (by simpa using hlast)) .nil, by simp⟩
      | cons q more =>
          obtain ⟨next, below, rfl, hnext, -⟩ := List.map_eq_cons_iff.1 hrest
          obtain ⟨hname', -, -⟩ := hmore q List.mem_cons_self
          have hentries : entries indent false (header :: line :: next :: below ++ [last]) =
              ofLines header [line] indent false :: entries indent false (next :: below ++ [last]) :=
            entries_above hhead hline (isHeader_parameterHeader hname' hnext)
          have hline' : line.isBlank = false := by
            rw [DocLine.isBlank, hline, isBlank_spaces_append, hdescription]
          rw [hentries]
          refine ⟨.cons (hentry (by simp)) hdocuments, ?_⟩
          intro entry hmem
          rcases mem_dropLast_cons hmem with rfl | hmem
          · exact Paragraph.Says.blankBelow_singleton hline'
          · exact hbelow entry hmem

/-- A bare type and its description are the only entry of a section. -/
theorem entries_of_bareType {type : Bytes} {front : List DocLine} (hlast : last.isBlank = true)
    (htype : IsName type)
    (h : front.map DocLine.text = CanonicalText.entryLines indent type description) :
    ∃ entry, entries indent true (front ++ [last]) = [entry] ∧ entry.name = none ∧
      entry.description.Says description := by
  rw [CanonicalText.entryLines] at h
  obtain ⟨header, _, rfl, hheader, h⟩ := List.map_eq_cons_iff.1 h
  obtain ⟨line, rest, rfl, hline, hrest⟩ := List.map_eq_cons_iff.1 h
  rw [List.map_eq_nil_iff.1 hrest]
  have hhead := htype.isHeader hheader
  refine ⟨ofLines header [line, last] indent true, entries_of_last hhead hline hlast, ?_, ?_⟩
  · exact ofHeader_of_bareType hhead.text_dedent htype
  · exact ⟨line, [last], indent + 4, rfl, hline, by simpa using hlast⟩

end ParameterEntry

end DocLint
