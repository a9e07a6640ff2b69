import DocLint.Proofs.Check.Restatement
import DocLint.Proofs.Check.Retelling

/-!
# Checks of retold docstrings

Every check comes to the same findings about a docstring and about the same one told again, at
places that correspond; what it finds at the declaration stays where it is.

* `registered_retold`: every registered check restates its findings, provided that the rule about
  the first word of the summary does.
-/

namespace DocLint

open Bytes

namespace Check

/-- The codes whose findings are placed at the declaration: what a docstring lacks is reported
there, and a lack of examples at the name that is declared, if there is one. -/
def standsAtDeclaration (d : Declaration) (code : Bytes) : Bool :=
  [Code.pr01.name, Code.rt01.name, Code.yd01.name].contains code ||
    code == Code.ex01.name && d.name?.isSome

/-- How the places of findings with a code correspond: those at the declaration are the same. -/
def corresponds (place : Position → Position → Prop) (d : Declaration) (code : Bytes) :
    Span → Span → Prop :=
  if standsAtDeclaration d code then Eq else Span.Both place

/-- What becomes of a documented name: its entry stands elsewhere. -/
def DocumentedName.retell (t : Retelling) (documented : DocumentedName) : DocumentedName :=
  ⟨documented.name, t.onFragment documented.entry⟩

variable {t : Retelling} {place : Position → Position → Prop} {doc doc' : Docstring}
  (h : doc.Retold t place doc') (d : Declaration)
include h

/-! ### The layout -/

theorem openingLine_retold :
    Restates (Span.Both place) (openingLine d doc) (openingLine d doc') := by
  have hlawful := h.lawful
  unfold openingLine
  rw [h.lines_eq]
  simp only [takeWhile_isBlank_map hlawful.content, List.length_map, ← List.map_drop,
    drop_takeWhile_isBlank]
  cases hfirst : doc.lines.dropWhile DocLine.isBlank with
  | nil => exact restates_silent
  | cons first rest =>
      have hreadable : first.isBlank = false := head?_dropWhile_isBlank (by rw [hfirst]; rfl)
      simp only [List.map_cons]
      split
      · exact restates_silent
      · exact restates_one rfl (.point (hlawful.column_leading hreadable)) _ _

theorem closingLine_retold :
    Restates (Span.Both place) (closingLine d doc) (closingLine d doc') := by
  have hlawful := h.lawful
  unfold closingLine
  rw [h.lines_eq]
  simp only [Paragraph.blankBelow_map hlawful.content, List.length_map, List.getLast?_map]
  cases doc.lines.getLast? with
  | none => exact restates_silent
  | some last =>
      simp only [Option.map_some]
      split
      · exact restates_silent
      · exact restates_one rfl (.point (hlawful.stop last)) _ _

theorem doubleBlank_retold :
    Restates (Span.Both place) (doubleBlank d doc) (doubleBlank d doc') := by
  have hblank : (fun p : DocLine × DocLine => p.1.isBlank && p.2.isBlank) ∘
      Prod.map t.onLine t.onLine = fun p => p.1.isBlank && p.2.isBlank := by
    funext (a, b)
    exact congrArg₂ and (h.lawful.isBlank a) (h.lawful.isBlank b)
  unfold doubleBlank
  dsimp only
  rw [h.lines_eq, ← List.map_dropLast, ← List.map_tail, List.zip_map, List.filter_map, hblank]
  refine restates_map (Prod.map t.onLine t.onLine) rfl ?_
  intro (a, b) hab
  have hmem := List.of_mem_zip (List.mem_of_mem_filter hab)
  have ha := List.dropLast_subset _ hmem.1
  have hb := List.dropLast_subset _ (List.mem_of_mem_tail hmem.2)
  exact restates_one rfl ⟨h.lineAnchor a ha, h.lineAnchor b hb⟩ _ _

theorem tabs_retold : Restates (Span.Both place) (tabs d doc) (tabs d doc') := by
  have hspans : doc'.lines.filterMap tabSpan? = (doc.lines.filterMap tabSpan?).map t.onSpan := by
    rw [h.lines_eq, List.filterMap_map, List.map_filterMap]
    exact List.filterMap_congr fun line _ => h.lawful.tabs line
  exact restates_map t.onSpan hspans fun span _ => restates_one rfl (h.lawful.span span) _ _

theorem unknownSection_retold :
    Restates (Span.Both place) (unknownSection d doc) (unknownSection d doc') := by
  have hunknown : (fun s => !isAllowed s) ∘ t.onSection = fun s => !isAllowed s := by
    funext s
    rw [Function.comp_apply, isAllowed, h.lawful.sectionName]
    rfl
  unfold unknownSection
  refine restates_map t.onSection ?_ fun s _ => ?_
  · rw [h.sections_eq, List.filter_map, hunknown]
  · rw [h.lawful.sectionName]
    exact restates_one rfl (h.lawful.span s.name.span) _ _

theorem sectionOrder_retold :
    Restates (Span.Both place) (sectionOrder d doc) (sectionOrder d doc') := by
  have hexpected : expectedSections doc' = expectedSections doc :=
    congrArg (List.filter · SectionName.allowed) (funext h.hasSection)
  have hname (s : DocSection) : (t.onSection s).name.value = s.name.value := by
    rw [h.lawful.sectionName]
    rfl
  unfold sectionOrder
  simp only [hexpected, h.filter_isAllowed, List.zip_map_right]
  refine restates_map (fun x => (x.1, t.onSection x.2)) ?_ fun x _ => ?_
  · rw [List.filter_map]
    congr 1
    refine List.filter_congr fun x _ => ?_
    rw [Function.comp_apply, Prod.map_snd, Prod.map_fst, hname]
    rfl
  · simp only [hname]
    rw [h.lawful.sectionName]
    exact restates_one rfl (h.lawful.span x.2.name.span) _ _

theorem deprecationPlace_retold :
    Restates (Span.Both place) (deprecationPlace d doc) (deprecationPlace d doc') := by
  unfold deprecationPlace
  rw [h.summary_eq]
  cases hsummary : doc.summary with
  | none => exact restates_silent
  | some s =>
      simp only [Option.map_some, h.summaryDeprecations, List.head?_map]
      cases hhead : (summaryDeprecations s).head? with
      | none => exact restates_silent
      | some span =>
          have hplace := h.deprecationLine s hsummary span (List.mem_of_head? hhead)
          simp only [Option.map_some, hplace]
          split
          · exact restates_silent
          · exact restates_one rfl (h.lawful.span span) _ _

theorem repeatedDeprecation_retold :
    Restates (Span.Both place) (repeatedDeprecation d doc) (repeatedDeprecation d doc') := by
  unfold repeatedDeprecation
  rw [h.summary_eq]
  cases hsummary : doc.summary with
  | none => exact restates_silent
  | some s =>
      have hmisplaced : misplaced (s.map t.onLine) = (misplaced s).map t.onSpan := by
        unfold misplaced
        rw [h.summaryDeprecations, List.filter_map]
        congr 1
        refine List.filter_congr fun span hspan => ?_
        rw [Function.comp_apply, bne, bne, Bool.eq_iff_iff]
        simpa using not_congr (h.deprecationLine s hsummary span hspan)
      simp only [Option.map_some, h.summaryDeprecations, List.length_map]
      split
      · exact restates_silent
      · exact restates_map _ hmisplaced fun span _ => restates_one rfl (h.lawful.span span) _ _

theorem directiveColons_retold :
    Restates (Span.Both place) (directiveColons d doc) (directiveColons d doc') := by
  rw [directiveColons_eq, directiveColons_eq]
  refine restates_map (fun x => (t.onLine x.1, t.margin x.1 + x.2.1, x.2.2)) ?_
    fun x _ => restates_one rfl (h.lawful.ofLength (h.lawful.column x.1 x.2.1) _) _ _
  rw [h.lines_eq, List.filterMap_map, List.map_filterMap]
  refine List.filterMap_congr fun line _ => ?_
  rw [Function.comp_apply, h.lawful.directive, Option.map_map, Option.map_map]
  rfl

/-! ### The summary -/

theorem summaryMissing_retold :
    Restates (Span.Both place) (summaryMissing d doc) (summaryMissing d doc') := by
  unfold summaryMissing
  rw [h.summaryLines, List.isEmpty_map, h.lines_eq]
  split
  · refine restates_one rfl ⟨h.start, ?_⟩ _ _
    cases hlines : doc.lines with
    | nil => exact h.start
    | cons first rest => exact h.opening first (by rw [hlines]; rfl)
  · exact restates_silent

theorem summaryCapital_retold :
    Restates (Span.Both place) (summaryCapital d doc) (summaryCapital d doc') := by
  unfold summaryCapital
  rw [h.summaryLines]
  cases hlines : summaryLines doc with
  | nil => exact restates_silent
  | cons first rest =>
      have hfirst : first.isBlank = false := h.summary_readable first (by simp [hlines])
      have hhead := h.lawful.head?_stripStart first
      simp only [List.map_cons]
      cases hstart : stripStart first.text with
      | nil =>
          rw [show first.isBlank = true from stripStart_eq_nil_iff.1 hstart] at hfirst
          cases hfirst
      | cons c r =>
          rw [hstart] at hhead
          obtain ⟨r', hr'⟩ := List.head?_eq_some_iff.1 hhead
          simp only [hr']
          split
          · exact restates_one rfl (h.lawful.ofLength (h.lawful.column_leading hfirst) 1) _ _
          · exact restates_silent

theorem summaryPeriod_retold :
    Restates (Span.Both place) (summaryPeriod d doc) (summaryPeriod d doc') := by
  unfold summaryPeriod
  rw [h.summaryLines, List.getLast?_map]
  cases hlast : (summaryLines doc).getLast? with
  | none => exact restates_silent
  | some last =>
      have hblank : last.isBlank = false :=
        h.summary_readable last (List.mem_of_getLast? hlast)
      have hends : endsWith (stripEnd (t.onLine last).text) (ascii ".") =
          endsWith (stripEnd last.text) (ascii ".") := by
        rw [Bool.eq_iff_iff]
        refine (endsWith_singleton_iff (c := byte '.')).trans
          (Iff.trans ?_ (endsWith_singleton_iff (c := byte '.')).symm)
        rw [← getLast?_strip, h.lawful.content last, getLast?_strip]
      have hcontent := h.lawful.column_stripEnd hblank
      simp only [Option.map_some, hends]
      split
      · exact restates_silent
      · exact restates_one rfl hcontent _ _

theorem summaryIndent_retold :
    Restates (Span.Both place) (summaryIndent d doc) (summaryIndent d doc') := by
  unfold summaryIndent
  rw [h.summaryLines]
  cases hsummary : summaryLines doc with
  | nil => exact restates_silent
  | cons first rest =>
      have hfirst : first ∈ summaryLines doc := by simp [hsummary]
      have hmem := h.summary_mem first hfirst
      have hlines : doc.lines.isEmpty = false :=
        List.isEmpty_eq_false_iff.2 (List.ne_nil_of_mem hmem)
      have hlines' : doc'.lines.isEmpty = false := by rw [h.lines_eq, List.isEmpty_map, hlines]
      simp only [List.map_cons, hlines, hlines', h.expectedIndent first hmem,
        h.lawful.leading first (h.summary_readable first hfirst), Nat.add_left_cancel_iff,
        Nat.add_lt_add_iff_left, Bool.false_eq_true, if_false]
      split
      · exact restates_silent
      · split
        · exact restates_one rfl ⟨h.lawful.column first _, h.lawful.column first _⟩ _ _
        · exact restates_one rfl (.point (h.lawful.column first _)) _ _

/-- Where a line is no more than moved, its first word is found again, and what follows it. -/
theorem summaryVerb_retold
    (hstart : ∀ line, stripStart (t.onLine line).text = stripStart line.text) :
    Restates (Span.Both place) (summaryVerb d doc) (summaryVerb d doc') := by
  rw [summaryVerb_eq, summaryVerb_eq, h.summaryLines]
  cases hsummary : summaryLines doc with
  | nil => exact restates_silent
  | cons first rest =>
      have hfirst := h.summary_readable first (by simp [hsummary])
      simp only [List.map_cons, hstart]
      split
      · exact restates_one rfl (h.lawful.ofLength (h.lawful.column_leading hfirst) _) _ _
      · exact restates_silent

theorem summaryLength_retold :
    Restates (Span.Both place) (summaryLength d doc) (summaryLength d doc') := by
  unfold summaryLength
  rw [h.summaryLines, List.head?_map, List.getLast?_map, List.length_map]
  cases hhead : (summaryLines doc).head? with
  | none => exact restates_silent
  | some first =>
      have hfirst := h.summary_readable first (List.mem_of_head? hhead)
      cases (summaryLines doc).getLast? with
      | none => exact restates_silent
      | some last =>
          simp only [Option.map_some]
          split
          · exact restates_silent
          · exact restates_one rfl ⟨h.lawful.column_leading hfirst, h.lawful.stop last⟩ _ _

theorem extendedMissing_retold :
    Restates (Span.Both place) (extendedMissing d doc) (extendedMissing d doc') := by
  unfold extendedMissing
  rw [h.summary_eq]
  cases doc.summary with
  | none => exact restates_silent
  | some s =>
      simp only [Option.map_some, DocSummary.map, List.isEmpty_map, Option.isSome_map]
      split
      · exact restates_silent
      · exact restates_one rfl (h.lawful.ofLength h.start 3) _ _

/-- Missing examples are reported at the name that is declared, or else at the docstring. -/
theorem examplesMissing_retold :
    Restates (if d.name?.isSome then Eq else Span.Both place) (examplesMissing d doc)
      (examplesMissing d doc') := by
  unfold examplesMissing
  rw [h.hasSection]
  by_cases hsection : doc.hasSection SectionName.examples = true
  · rw [if_pos hsection, if_pos hsection]
    exact restates_silent
  · rw [if_neg hsection, if_neg hsection]
    cases d.name? with
    | some name => exact restates_one rfl rfl _ _
    | none => exact restates_one rfl (.point h.start) _ _

/-! ### The parameters -/

theorem parameterEntries_retold :
    parameterEntries doc' = (parameterEntries doc).map t.onEntry := h.entries SectionName.parameters

theorem otherEntries_retold :
    otherEntries doc' = (otherEntries doc).map t.onEntry := h.entries SectionName.otherParameters

theorem bothEntries_retold :
    parameterEntries doc' ++ otherEntries doc' =
      (parameterEntries doc ++ otherEntries doc).map t.onEntry := by
  rw [parameterEntries_retold h, otherEntries_retold h, List.map_append]

theorem documentedNames_retold (entries : List ParameterEntry) :
    documentedNames (entries.map t.onEntry) =
      (documentedNames entries).map (DocumentedName.retell t) := by
  unfold documentedNames
  rw [List.flatMap_map, List.map_flatMap]
  refine List.flatMap_congr fun entry _ => ?_
  rw [h.lawful.entryName]
  cases entry.name with
  | none => rfl
  | some name =>
      simp only [Option.map_some, List.map_map]
      rfl

/-- The names that both sections document. -/
theorem documented_retold :
    documentedNames (parameterEntries doc') ++ documentedNames (otherEntries doc') =
      (documentedNames (parameterEntries doc) ++ documentedNames (otherEntries doc)).map
        (DocumentedName.retell t) := by
  rw [parameterEntries_retold h, otherEntries_retold h, documentedNames_retold h,
    documentedNames_retold h, List.map_append]

/-- What is missing is reported at the declaration. -/
theorem undocumentedParameters_retold :
    Restates Eq (undocumentedParameters d doc) (undocumentedParameters d doc') := by
  unfold undocumentedParameters
  dsimp only
  rw [documented_retold h]
  simp only [List.any_map]
  exact restates_ofParameters
    (restates_map (fun p => p) (List.map_id' _).symm fun p _ => restates_one rfl rfl _ _)

theorem undeclaredParameters_retold :
    Restates (Span.Both place) (undeclaredParameters d doc) (undeclaredParameters d doc') := by
  unfold undeclaredParameters
  dsimp only
  rw [documented_retold h, List.filter_map]
  exact restates_ofParameters (restates_map (DocumentedName.retell t) rfl fun n _ =>
    restates_one rfl (h.lawful.span n.entry.span) _ _)

omit h in
theorem disorder_retold (documented : List DocumentedName) (declared : List Parameter) :
    disorder (documented.map (DocumentedName.retell t)) declared =
      (disorder documented declared).map (Prod.map (DocumentedName.retell t) fun p => p) := by
  unfold disorder
  rw [List.length_map]
  split
  · rw [List.zip_map_left, List.filter_map]
    rfl
  · rfl

theorem disorders_retold :
    disorders d doc' = (disorders d doc).map (Prod.map (DocumentedName.retell t) fun p => p) := by
  unfold disorders
  rw [parameterEntries_retold h, otherEntries_retold h, documentedNames_retold h,
    documentedNames_retold h]
  dsimp only
  cases documentedNames (otherEntries doc) with
  | nil => exact disorder_retold _ _
  | cons first rest =>
      rw [List.map_cons]
      dsimp only
      rw [← List.map_cons, disorder_retold, disorder_retold, List.map_append]
      rfl

theorem parameterOrder_retold :
    Restates (Span.Both place) (parameterOrder d doc) (parameterOrder d doc') := by
  rw [parameterOrder_eq, parameterOrder_eq]
  exact restates_ofParameters (restates_map _ (disorders_retold h d) fun x _ =>
    restates_one rfl (h.lawful.span x.1.entry.span) _ _)

theorem typeMissing_retold :
    Restates (Span.Both place) (typeMissing d doc) (typeMissing d doc') := by
  refine restates_ofParameters (restates_map t.onFragment ?_ fun name _ =>
    restates_one rfl (h.lawful.span name.span) _ _)
  rw [bothEntries_retold h, List.filterMap_map, List.map_filterMap]
  refine List.filterMap_congr fun entry _ => ?_
  rw [Function.comp_apply, h.lawful.entryTypes, h.lawful.entryName, Option.isSome_map]
  split
  · rfl
  · rfl

theorem typePeriod_retold :
    Restates (Span.Both place) (typePeriod d doc) (typePeriod d doc') := by
  refine restates_ofParameters (restates_map (Prod.map t.onEntry t.onFragment) ?_ ?_)
  · rw [bothEntries_retold h, List.filterMap_map, List.map_filterMap]
    refine List.filterMap_congr fun entry _ => ?_
    rw [Function.comp_apply, h.lawful.types_getD, List.getLast?_map]
    cases (entry.types.getD []).getLast? with
    | none => rfl
    | some type =>
        simp only [Option.map_some, Option.bind_some, Retelling.onFragment]
        split
        · rfl
        · rfl
  · rintro ⟨entry, type⟩ -
    simp only [Prod.map_apply, h.lawful.displayName]
    exact restates_one rfl (.point (h.lawful.position type.span.stop)) _ _

theorem typeNames_retold :
    Restates (Span.Both place) (typeNames d doc) (typeNames d doc') := by
  refine restates_ofParameters (restates_map
    (fun x => (t.onEntry x.1, t.onFragment x.2.1, x.2.2)) ?_ fun x _ => ?_)
  · rw [parameterEntries_retold h, List.flatMap_map, List.map_flatMap]
    refine List.flatMap_congr fun entry _ => ?_
    rw [h.lawful.types_getD, List.filterMap_map, List.map_filterMap]
    refine List.filterMap_congr fun type _ => ?_
    rw [Function.comp_apply, Option.map_map]
    rfl
  · simp only [h.lawful.displayName]
    exact restates_one rfl (h.lawful.span x.2.1.span) _ _

theorem colonSpacing_retold :
    Restates (Span.Both place) (colonSpacing d doc) (colonSpacing d doc') := by
  unfold colonSpacing
  dsimp only
  rw [parameterEntries_retold h, List.flatMap_map]
  -- The tight colons of an entry correspond one by one, wherever they end.
  refine restates_ofParameters (restates_mapM (S := fun x y => y.1 = t.onEntry x.1 ∧
    Span.Both place ⟨x.1.header.column x.2.1, x.1.header.column x.2.2⟩
      ⟨y.1.header.column y.2.1, y.1.header.column y.2.2⟩) ?_ ?_)
  · refine List.rel_flatMap (List.forall₂_same.2 fun entry _ => rfl) ?_
    rintro entry _ rfl
    rw [List.forall₂_map_left_iff, List.forall₂_map_right_iff]
    exact (h.lawful.tightColons entry).imp fun found found' hfound => ⟨rfl, hfound⟩
  · rintro ⟨entry, start, stop⟩ ⟨_, start', stop'⟩ ⟨rfl, hplace⟩
    simp only [h.lawful.displayName]
    exact restates_one rfl hplace _ _

/-! ### Entries -/

/-- A rule about single entries asks for a property that stays, and names the entry. -/
theorem entries_retold {code : Code} {field : String} {p : ParameterEntry → Bool}
    {suggestion : Option Bytes} {entries entries' : List ParameterEntry}
    (hentries : entries' = entries.map t.onEntry)
    (covered : ∀ entry, (code.template.fields.all fun name =>
      ((subject field entry).lookup name).isSome) = true)
    (hp : ∀ entry : ParameterEntry, p (t.onEntry entry) = p entry) :
    Restates (Span.Both place)
      ((entries.filter p).mapM fun entry =>
        code.report entry.anchor suggestion (subject field entry))
      ((entries'.filter p).mapM fun entry =>
        code.report entry.anchor suggestion (subject field entry)) := by
  have hcomp : p ∘ t.onEntry = p := funext hp
  rw [hentries, List.filter_map, hcomp]
  refine restates_map t.onEntry rfl fun entry _ => ?_
  have hsubject : subject field (t.onEntry entry) = subject field entry := by
    rw [subject, h.lawful.displayName, subject]
  rw [hsubject]
  exact restates_one (covered entry) (h.lawful.anchor entry) _ _

/-- The rules about descriptions look at properties that stay. -/
theorem descriptions_retold {code : Code} {field : String} {p : Paragraph → Bool}
    {suggestion : String} {entries entries' : List ParameterEntry}
    (hentries : entries' = entries.map t.onEntry)
    (covered : ∀ entry, (code.template.fields.all fun name =>
      ((subject field entry).lookup name).isSome) = true)
    (hp : ∀ description : Paragraph, p (description.map t.onDescription) = p description) :
    Restates (Span.Both place) (descriptions code field p suggestion entries)
      (descriptions code field p suggestion entries') := by
  refine entries_retold h hentries covered fun entry => ?_
  rw [h.lawful.description, hp]

theorem parameterDescribed_retold :
    Restates (Span.Both place) (parameterDescribed d doc) (parameterDescribed d doc') :=
  restates_ofParameters (descriptions_retold h (parameterEntries_retold h) (fun _ => rfl)
    (Paragraph.hasDescription_map h.lawful.descriptions))

theorem parameterCapitalized_retold :
    Restates (Span.Both place) (parameterCapitalized d doc) (parameterCapitalized d doc') :=
  restates_ofParameters (descriptions_retold h (parameterEntries_retold h) (fun _ => rfl)
    (Paragraph.startsUppercase_map h.lawful.descriptions))

theorem parameterPunctuated_retold :
    Restates (Span.Both place) (parameterPunctuated d doc) (parameterPunctuated d doc') :=
  restates_ofParameters (descriptions_retold h (parameterEntries_retold h) (fun _ => rfl)
    (Paragraph.endsWithPeriod_map h.lawful.descriptions))

theorem blankAboveDescription_retold :
    Restates (Span.Both place) (blankAboveDescription d doc) (blankAboveDescription d doc') := by
  refine restates_ofParameters
    (entries_retold h (parameterEntries_retold h) (fun _ => rfl) fun entry => ?_)
  rw [h.lawful.description, Paragraph.all_isBlank_map h.lawful.descriptions.content,
    Paragraph.blankAbove_map h.lawful.descriptions.content]

theorem blankBelowDescription_retold :
    Restates (Span.Both place) (blankBelowDescription d doc) (blankBelowDescription d doc') := by
  refine restates_ofParameters (entries_retold h ?_ (fun _ => rfl) fun entry => ?_)
  · rw [parameterEntries_retold h, List.map_dropLast]
  · rw [h.lawful.description, Paragraph.all_isBlank_map h.lawful.descriptions.content,
      Paragraph.blankBelow_map h.lawful.descriptions.content]

theorem repeatedOptional_retold :
    Restates (Span.Both place) (repeatedOptional d doc) (repeatedOptional d doc') := by
  refine restates_ofParameters
    (entries_retold h (parameterEntries_retold h) (fun _ => rfl) fun entry => ?_)
  rw [h.lawful.optionalCount]

theorem emptyChoices_retold :
    Restates (Span.Both place) (emptyChoices d doc) (emptyChoices d doc') := by
  rw [emptyChoices_eq, emptyChoices_eq]
  refine restates_ofParameters (restates_map
    (fun x => (t.onEntry x.1, t.onFragment x.2)) ?_ fun x _ => ?_)
  · rw [parameterEntries_retold h, List.flatMap_map, List.map_flatMap]
    refine List.flatMap_congr fun entry _ => ?_
    rw [h.lawful.types_getD, List.filter_map, List.map_map, List.map_map]
    rfl
  · simp only [subject, h.lawful.displayName]
    exact restates_one rfl (h.lawful.span x.2.span) _ _

/-! ### The results -/

theorem returnEntries_retold :
    returnEntries doc' = (returnEntries doc).map t.onEntry := h.entries SectionName.returns

/-- What is missing is reported at the declaration. -/
theorem returnsMissing_retold : Restates Eq (returnsMissing d doc) (returnsMissing d doc') := by
  unfold returnsMissing
  rw [h.hasSection]
  split
  · exact restates_silent
  · exact restates_one rfl rfl _ _

theorem namedReturn_retold :
    Restates (Span.Both place) (namedReturn d doc) (namedReturn d doc') := by
  unfold namedReturn
  rw [returnEntries_retold h]
  apply restates_ofCallable
  match returnEntries doc with
  | [] => exact restates_silent
  | [entry] =>
      simp only [List.map_cons, List.map_nil, h.lawful.entryName]
      cases entry.name with
      | none => exact restates_silent
      | some name => exact restates_one rfl (h.lawful.span name.span) _ _
  | _ :: _ :: _ => exact restates_silent

theorem returnDescribed_retold :
    Restates (Span.Both place) (returnDescribed d doc) (returnDescribed d doc') :=
  restates_ofCallable (descriptions_retold h (returnEntries_retold h) (fun _ => rfl)
    (Paragraph.hasDescription_map h.lawful.descriptions))

theorem returnCapitalized_retold :
    Restates (Span.Both place) (returnCapitalized d doc) (returnCapitalized d doc') :=
  restates_ofCallable (descriptions_retold h (returnEntries_retold h) (fun _ => rfl)
    (Paragraph.startsUppercase_map h.lawful.descriptions))

theorem returnPunctuated_retold :
    Restates (Span.Both place) (returnPunctuated d doc) (returnPunctuated d doc') :=
  restates_ofCallable (descriptions_retold h (returnEntries_retold h) (fun _ => rfl)
    (Paragraph.endsWithPeriod_map h.lawful.descriptions))

/-- What is missing is reported at the declaration. -/
theorem yieldsMissing_retold : Restates Eq (yieldsMissing d doc) (yieldsMissing d doc') := by
  unfold yieldsMissing
  rw [h.hasSection]
  split
  · exact restates_silent
  · exact restates_one rfl rfl _ _

/-! ### All of them -/

/-- Every registered check comes to the same findings about a docstring and about the same one told
again, if the rule about the first word of the summary does. -/
theorem registered_retold : ∀ check ∈ registered,
    (check.id = Code.ss05.name →
      Restates (Span.Both place) (summaryVerb d doc) (summaryVerb d doc')) →
    Restates (corresponds place d check.id) (check.run d doc) (check.run d doc') := by
  have hmoved {code : Code} {result result' : CheckResult}
      (hcode : standsAtDeclaration d code.name = false)
      (hrestates : Restates (Span.Both place) result result') :
      Restates (corresponds place d code.name) result result' := by
    rw [corresponds, hcode, if_neg Bool.false_ne_true]
    exact hrestates
  have hfixed {code : Code} {result result' : CheckResult}
      (hcode : standsAtDeclaration d code.name = true) (hrestates : Restates Eq result result') :
      Restates (corresponds place d code.name) result result' := by
    rw [corresponds, hcode, if_pos rfl]
    exact hrestates
  simp only [registered, List.forall_mem_cons, ofCode]
  exact ⟨fun _ => hmoved rfl (openingLine_retold h d), fun _ => hmoved rfl (closingLine_retold h d),
    fun _ => hmoved rfl (doubleBlank_retold h d), fun _ => hmoved rfl (tabs_retold h d),
    fun _ => hmoved rfl (unknownSection_retold h d), fun _ => hmoved rfl (sectionOrder_retold h d),
    fun _ => hmoved rfl (deprecationPlace_retold h d),
    fun _ => hmoved rfl (directiveColons_retold h d),
    fun _ => hmoved rfl (repeatedDeprecation_retold h d),
    fun _ => hmoved rfl (summaryMissing_retold h d),
    fun _ => hmoved rfl (summaryCapital_retold h d), fun _ => hmoved rfl (summaryPeriod_retold h d),
    fun _ => hmoved rfl (summaryIndent_retold h d), fun hverb => hmoved rfl (hverb trivial),
    fun _ => hmoved rfl (summaryLength_retold h d),
    fun _ => hmoved rfl (extendedMissing_retold h d), fun _ => examplesMissing_retold h d,
    fun _ => hfixed rfl (undocumentedParameters_retold h d),
    fun _ => hmoved rfl (undeclaredParameters_retold h d),
    fun _ => hmoved rfl (parameterOrder_retold h d), fun _ => hmoved rfl (typeMissing_retold h d),
    fun _ => hmoved rfl (typePeriod_retold h d), fun _ => hmoved rfl (typeNames_retold h d),
    fun _ => hmoved rfl (parameterDescribed_retold h d),
    fun _ => hmoved rfl (parameterCapitalized_retold h d),
    fun _ => hmoved rfl (parameterPunctuated_retold h d),
    fun _ => hmoved rfl (colonSpacing_retold h d),
    fun _ => hmoved rfl (blankAboveDescription_retold h d),
    fun _ => hmoved rfl (blankBelowDescription_retold h d),
    fun _ => hmoved rfl (repeatedOptional_retold h d),
    fun _ => hmoved rfl (emptyChoices_retold h d), fun _ => hfixed rfl (returnsMissing_retold h d),
    fun _ => hmoved rfl (namedReturn_retold h d), fun _ => hmoved rfl (returnDescribed_retold h d),
    fun _ => hmoved rfl (returnCapitalized_retold h d),
    fun _ => hmoved rfl (returnPunctuated_retold h d),
    fun _ => hfixed rfl (yieldsMissing_retold h d), by simp⟩

end Check

end DocLint
