import DocLint.Lint.Validator
import DocLint.Proofs.Canonical.Contents
import DocLint.Proofs.Canonical.Rules
import DocLint.Proofs.Check.Agreement
import DocLint.Proofs.Lint.Suppression
import Mathlib

/-!
# Canonical docstrings are not reported

The rules about sections, parameters and results have nothing to say about a docstring that is read
from a sound canonical text either, so that the validator reports nothing.

* `registered_silent`: no registered check has a finding.
* `validate_canonical`: a declaration with a canonical docstring is not reported.
* `exists_gl10_of_bareDirective`: a directive without colons is reported wherever it stands.
-/

namespace DocLint

open Bytes

namespace Check

theorem ofParameters_silent {d : Declaration} {result : CheckResult} (h : result = silent) :
    ofParameters d result = silent := by
  rw [ofParameters, h, ite_self]

theorem ofCallable_silent {d : Declaration} {result : CheckResult} (h : result = silent) :
    ofCallable d result = silent := by
  rw [ofCallable, h, ite_self]

/-- A rule about descriptions that all of them keep. -/
theorem descriptions_silent {code : Code} {field : String} {p : Paragraph → Bool}
    {suggestion : String} {entries : List ParameterEntry}
    (h : ∀ entry ∈ entries, p entry.description = true) :
    descriptions code field p suggestion entries = silent := by
  refine mapM_eq_silent_iff.2 (List.filter_eq_nil_iff.2 fun entry hentry => ?_)
  rw [h entry hentry]
  decide

theorem exists_of_mem_forall₂ {α β : Type} {R : α → β → Prop} {as : List α} {bs : List β}
    (h : List.Forall₂ R as bs) : ∀ a ∈ as, ∃ b ∈ bs, R a b := by
  induction h with
  | nil => simp
  | cons hab _ ih =>
      intro a ha
      rcases List.mem_cons.1 ha with rfl | ha
      · exact ⟨_, List.mem_cons_self, hab⟩
      · obtain ⟨b, hb, hR⟩ := ih a ha
        exact ⟨b, List.mem_cons_of_mem _ hb, hR⟩

/-- The names that entries document are those of the parameters. -/
theorem map_documentedNames {entries : List ParameterEntry} {parameters : List ParameterText}
    (h : List.Forall₂ ParameterEntry.Documents entries parameters)
    (hname : ∀ p ∈ parameters, IsName p.declared.name) :
    (documentedNames entries).map DocumentedName.name =
      parameters.map fun p => p.declared.name := by
  induction h with
  | nil => rfl
  | @cons entry p entries parameters hentry _ ih =>
      obtain ⟨name, hsome, hvalue⟩ := Option.map_eq_some_iff.1 hentry.name
      have hnames := namesOf_of_isName (hname p List.mem_cons_self)
      have hrest := ih fun q hq => hname q (List.mem_cons_of_mem p hq)
      rw [documentedNames] at hrest ⊢
      rw [List.flatMap_cons, List.map_append, hrest, hsome]
      dsimp only
      rw [hvalue, hnames]
      rfl

end Check

namespace CanonicalText

open Check

namespace IsRead

variable {t : CanonicalText} {indent blank : Nat} {doc : Docstring}
  (h : t.IsRead indent blank doc) (hs : t.Sound) (d : Declaration)

include h hs

/-! ### Sections -/

theorem isAllowed_of_mem {s : DocSection} (hmem : s ∈ doc.sections) : isAllowed s = true := by
  have hname : s.name.value ∈ t.names := h.map_name hs ▸ List.mem_map_of_mem hmem
  have hall : ∀ name ∈ t.names, SectionName.allowed.contains name = true := by
    rw [names]
    split <;> decide
  exact hall _ hname

theorem unknownSection_silent : unknownSection d doc = silent := by
  refine mapM_eq_silent_iff.2 (List.filter_eq_nil_iff.2 fun s hmem => ?_)
  rw [h.isAllowed_of_mem hs hmem]
  decide

theorem sectionOrder_silent : sectionOrder d doc = silent := by
  have hactual : doc.sections.filter isAllowed = doc.sections :=
    List.filter_eq_self.2 fun s hmem => h.isAllowed_of_mem hs hmem
  have hexpected : expectedSections doc = doc.sections.map fun s => s.name.value := by
    have hnames : SectionName.allowed.filter t.names.contains = t.names := by
      rw [names]
      split <;> decide
    rw [expectedSections, funext (h.hasSection_eq hs), hnames, h.map_name hs]
  have hzip (sections : List DocSection) : ((sections.map fun s => s.name.value).zip
      sections).filter (fun x => x.1 != x.2.name.value) = [] := by
    induction sections with
    | nil => rfl
    | cons s rest ih =>
        rw [List.map_cons, List.zip_cons_cons, List.filter_cons_of_neg (by simp), ih]
  unfold sectionOrder
  rw [hactual, hexpected]
  exact mapM_eq_silent_iff.2 (hzip doc.sections)

theorem examplesMissing_silent : examplesMissing d doc = silent := by
  have hexamples : doc.hasSection SectionName.examples = true := by
    rw [h.hasSection_eq hs, names]
    split <;> decide
  rw [examplesMissing, hexamples, if_pos rfl]

theorem returnsMissing_silent : returnsMissing d doc = silent := by
  have hreturns : doc.hasSection SectionName.returns = true := by
    rw [h.hasSection_eq hs, names]
    split <;> decide
  rw [returnsMissing, hreturns, Bool.or_true, if_pos rfl]

theorem yieldsMissing_silent : yieldsMissing d doc = silent := by
  have hyields : doc.hasSection SectionName.yields = true := by
    rw [h.hasSection_eq hs, names]
    split <;> decide
  rw [yieldsMissing, hyields, Bool.or_true, if_pos rfl]

/-! ### Results -/

theorem namedReturn_silent : namedReturn d doc = silent := by
  obtain ⟨entry, hentries, hname, -⟩ := h.returnEntries_eq hs
  refine ofCallable_silent ?_
  rw [hentries]
  dsimp only
  rw [hname]

/-- The rules about descriptions that the description of the result keeps. -/
theorem returnDescriptions_silent {code : Code} {field suggestion : String}
    {p : Paragraph → Bool}
    (hp : ∀ q : Paragraph, q.Says t.returnDescription → p q = true) :
    ofCallable d (descriptions code field p suggestion (returnEntries doc)) = silent := by
  obtain ⟨entry, hentries, -, hsays⟩ := h.returnEntries_eq hs
  refine ofCallable_silent (descriptions_silent fun e he => ?_)
  rw [hentries, List.mem_singleton] at he
  rw [he]
  exact hp _ hsays

/-! ### Parameters -/

/-- Every entry documents some parameter. -/
theorem exists_documents : ∀ entry ∈ parameterEntries doc, ∃ p ∈ t.parameters,
    entry.Documents p :=
  exists_of_mem_forall₂ (h.parameterEntries_document hs).1

/-- The types of an entry are those that the text lists. -/
theorem exists_types {entry : ParameterEntry} (hentry : entry ∈ parameterEntries doc) :
    ∃ p ∈ t.parameters, entry.types.isSome = true ∧
      (entry.types.getD []).map Fragment.value = listedTypes p.type := by
  obtain ⟨p, hp, hdocuments⟩ := h.exists_documents hs entry hentry
  obtain ⟨types, hsome, hvalues⟩ := Option.map_eq_some_iff.1 hdocuments.types
  refine ⟨p, hp, ?_, ?_⟩
  · rw [hsome]
    rfl
  · rw [hsome]
    exact hvalues

theorem typeMissing_silent : typeMissing d doc = silent := by
  refine ofParameters_silent (mapM_eq_silent_iff.2 (List.filterMap_eq_nil_iff.2 fun entry hentry => ?_))
  rw [h.otherEntries_eq hs, List.append_nil] at hentry
  obtain ⟨p, -, hsome, -⟩ := h.exists_types hs hentry
  rw [hsome, if_pos rfl]

theorem typePeriod_silent : typePeriod d doc = silent := by
  refine ofParameters_silent (mapM_eq_silent_iff.2 (List.filterMap_eq_nil_iff.2 fun entry hentry => ?_))
  rw [h.otherEntries_eq hs, List.append_nil] at hentry
  obtain ⟨p, hp, -, htypes⟩ := h.exists_types hs hentry
  cases hlast : (entry.types.getD []).getLast? with
  | none => rfl
  | some type =>
      have hmem : type.value ∈ (listedTypes p.type).getLast? := by
        rw [← htypes, List.getLast?_map, hlast]
        rfl
      have hperiod := (hs.parameter_type p hp).no_period type.value hmem
      rw [Option.bind_some, if_neg (by rw [hperiod]; decide)]

theorem typeNames_silent : typeNames d doc = silent := by
  refine ofParameters_silent (mapM_eq_silent_iff.2 (List.flatMap_eq_nil_iff.2 fun entry hentry => ?_))
  obtain ⟨p, hp, -, htypes⟩ := h.exists_types hs hentry
  refine List.filterMap_eq_nil_iff.2 fun type htype => ?_
  have hmem : type.value ∈ listedTypes p.type := htypes ▸ List.mem_map_of_mem htype
  rw [(hs.parameter_type p hp).no_wrongName type.value hmem]
  rfl

theorem emptyChoices_silent : emptyChoices d doc = silent := by
  rw [emptyChoices_eq]
  refine ofParameters_silent (mapM_eq_silent_iff.2 (List.flatMap_eq_nil_iff.2 fun entry hentry => ?_))
  obtain ⟨p, hp, -, htypes⟩ := h.exists_types hs hentry
  rw [List.map_eq_nil_iff, List.filter_eq_nil_iff]
  intro type htype
  have hmem : type.value ∈ listedTypes p.type := htypes ▸ List.mem_map_of_mem htype
  rw [(hs.parameter_type p hp).no_emptyChoice type.value hmem]
  decide

theorem colonSpacing_silent : colonSpacing d doc = silent := by
  refine ofParameters_silent (mapM_eq_silent_iff.2 (List.flatMap_eq_nil_iff.2 fun entry hentry => ?_))
  obtain ⟨p, hp, hdocuments⟩ := h.exists_documents hs entry hentry
  rw [hdocuments.header,
    tightColons_parameterHeader (hs.parameter_name p hp) (hs.parameter_type p hp)]
  rfl

theorem repeatedOptional_silent : repeatedOptional d doc = silent := by
  refine ofParameters_silent (mapM_eq_silent_iff.2 (List.filter_eq_nil_iff.2 fun entry hentry => ?_))
  obtain ⟨p, hp, hdocuments⟩ := h.exists_documents hs entry hentry
  have hle := (hs.parameter_type p hp).optional_le
  rw [hdocuments.optionalCount, decide_eq_true_eq, UInt32.not_lt]
  exact hle

theorem blankAboveDescription_silent : blankAboveDescription d doc = silent := by
  refine ofParameters_silent (mapM_eq_silent_iff.2 (List.filter_eq_nil_iff.2 fun entry hentry => ?_))
  obtain ⟨p, hp, hdocuments⟩ := h.exists_documents hs entry hentry
  have hblank := (hs.parameter_description p hp).not_blank
  rw [(hdocuments.description.not_all_isBlank hblank).2]
  simp

theorem blankBelowDescription_silent : blankBelowDescription d doc = silent := by
  refine ofParameters_silent (mapM_eq_silent_iff.2 (List.filter_eq_nil_iff.2 fun entry hentry => ?_))
  rw [(h.parameterEntries_document hs).2 entry hentry]
  simp

/-- A rule about single entries that all entries of parameters keep. -/
theorem parameterDescriptions_silent {code : Code} {field suggestion : String}
    {p : Paragraph → Bool}
    (hp : ∀ (q : Paragraph) (s : Bytes), IsDescription s → q.Says s → p q = true) :
    ofParameters d (descriptions code field p suggestion (parameterEntries doc)) = silent := by
  refine ofParameters_silent (descriptions_silent fun entry hentry => ?_)
  obtain ⟨q, hq, hdocuments⟩ := h.exists_documents hs entry hentry
  exact hp _ _ (hs.parameter_description q hq) hdocuments.description

/-! ### Names -/

variable {d} (hd : d.parameters = t.parameters.map ParameterText.declared)

include hd

/-- The documented names are the declared ones. -/
theorem documentedNames_eq :
    (documentedNames (parameterEntries doc) ++ documentedNames (otherEntries doc)).map
      DocumentedName.name = d.parameters.map Parameter.name := by
  rw [h.otherEntries_eq hs, hd, List.map_map]
  exact (congrArg _ (List.append_nil _)).trans
    (map_documentedNames (h.parameterEntries_document hs).1 hs.parameter_name)

theorem undocumentedParameters_silent : undocumentedParameters d doc = silent := by
  refine ofParameters_silent (mapM_eq_silent_iff.2 (List.filter_eq_nil_iff.2 fun p hp => ?_))
  -- A declared name is one of the documented ones, and the other way round below.
  have hname : p.name ∈ d.parameters.map Parameter.name := List.mem_map_of_mem hp
  rw [← h.documentedNames_eq hs hd] at hname
  obtain ⟨n, hn, hname⟩ := List.mem_map.1 hname
  rw [Bool.not_eq_true', Bool.not_eq_false, List.any_eq_true]
  exact ⟨n, hn, by rw [hname, beq_self_eq_true]⟩

theorem undeclaredParameters_silent : undeclaredParameters d doc = silent := by
  refine ofParameters_silent (mapM_eq_silent_iff.2 (List.filter_eq_nil_iff.2 fun n hn => ?_))
  have hname : n.name ∈ d.parameters.map Parameter.name := by
    rw [← h.documentedNames_eq hs hd]
    exact List.mem_map_of_mem hn
  obtain ⟨p, hp, hname⟩ := List.mem_map.1 hname
  rw [Option.isNone_iff_eq_none, Declaration.parameter?, List.find?_eq_none]
  intro hnone
  exact hnone p hp (by rw [hname, beq_self_eq_true])

theorem parameterOrder_silent : parameterOrder d doc = silent := by
  rw [parameterOrder_eq]
  refine ofParameters_silent (mapM_eq_silent_iff.2 ?_)
  have hnames := h.documentedNames_eq hs hd
  have hother : documentedNames (otherEntries doc) = [] := by
    rw [h.otherEntries_eq hs]
    rfl
  rw [hother, List.append_nil] at hnames
  rw [disorders, hother]
  exact disorder_eq_nil hnames

/-! ### All rules -/

/-- No registered check finds anything. -/
theorem registered_silent : ∀ check ∈ registered, check.run d doc = silent := by
  have hdescribed (q : Paragraph) (s : Bytes) (htext : IsDescription s) (hq : q.Says s) :=
    hq.hasDescription htext
  have hcapital (q : Paragraph) (s : Bytes) (htext : IsDescription s) (hq : q.Says s) :=
    hq.startsUppercase htext
  have hperiod (q : Paragraph) (s : Bytes) (htext : IsDescription s) (hq : q.Says s) :=
    hq.endsWithPeriod htext
  have hreturn := hs.returnDescription
  simp only [registered, List.forall_mem_cons, ofCode]
  exact ⟨h.openingLine_silent hs d, h.closingLine_silent hs d, h.doubleBlank_silent hs d,
    h.tabs_silent hs d, h.unknownSection_silent hs d, h.sectionOrder_silent hs d,
    h.deprecationPlace_silent d hs, h.directiveColons_silent hs d,
    h.repeatedDeprecation_silent d hs, h.summaryMissing_silent d, h.summaryCapital_silent d hs,
    h.summaryPeriod_silent d hs, h.summaryIndent_silent d hs, h.summaryVerb_silent d hs,
    h.summaryLength_silent d, h.extendedMissing_silent d, h.examplesMissing_silent hs d,
    h.undocumentedParameters_silent hs hd, h.undeclaredParameters_silent hs hd,
    h.parameterOrder_silent hs hd, h.typeMissing_silent hs d, h.typePeriod_silent hs d,
    h.typeNames_silent hs d, h.parameterDescriptions_silent hs d hdescribed,
    h.parameterDescriptions_silent hs d hcapital, h.parameterDescriptions_silent hs d hperiod,
    h.colonSpacing_silent hs d, h.blankAboveDescription_silent hs d,
    h.blankBelowDescription_silent hs d, h.repeatedOptional_silent hs d,
    h.emptyChoices_silent hs d, h.returnsMissing_silent hs d, h.namedReturn_silent hs d,
    h.returnDescriptions_silent hs d fun q => hdescribed q _ hreturn,
    h.returnDescriptions_silent hs d fun q => hcapital q _ hreturn,
    h.returnDescriptions_silent hs d fun q => hperiod q _ hreturn,
    h.yieldsMissing_silent hs d, by simp⟩

end IsRead

end CanonicalText

namespace Validator

/-- Silent checks contribute nothing. -/
theorem runChecks_of_silent (v : Validator) {d : Declaration} {doc : Docstring}
    {checks : List Check} (h : ∀ check ∈ checks, check.run d doc = Check.silent) :
    v.runChecks d doc checks = [] := by
  have hnone : checks.flatMap (v.contribution d doc) = [] := by
    rw [List.flatMap_eq_nil_iff]
    intro check hcheck
    rw [contribution, h check hcheck]
    exact ite_self []
  rw [runChecks_eq_upToTerminating, hnone]
  rfl

/-- Whatever the configuration, nothing is reported about a declaration whose docstring is canonical,
documents its parameters in their order and stands where the margin says. -/
theorem validate_canonical (config : Config) {t : CanonicalText} (hs : t.Sound) {mark : Bytes}
    {quote : UInt8} (hmark : ∀ c ∈ mark, isQuote c = false ∧ c ≠ newline)
    (hquote : isQuote quote = true) {indent : Nat} (blank : Nat) {start : Position}
    (hstart : start.column.toNat = indent + 1) {d : Declaration}
    (hd : d.parameters = t.parameters.map ParameterText.declared)
    (hdocstring : d.docstring =
      some (.ofText (t.literal mark quote indent blank) start)) :
    (ofConfig config).validate d = [] := by
  obtain ⟨hflaws, hread⟩ := CanonicalText.isRead_ofLiteral hs hmark hquote blank hstart
  have hsilent := hread.registered_silent hs hd
  have hselected : ∀ check ∈ config.checks, check.run d (Docstring.ofLiteral
      (.ofText (t.literal mark quote indent blank) start)).1 = Check.silent :=
    fun check hcheck => hsilent check (List.mem_of_mem_filter hcheck)
  unfold validate
  simp only [hdocstring, hflaws]
  rw [List.map_nil, List.filter_nil, List.nil_append]
  split
  · rfl
  · exact (ofConfig config).runChecks_of_silent hselected

/-- A text with one parameter. -/
def sampleText : CanonicalText where
  summary := ascii "Do it."
  extended := ascii "In the usual way"
  parameters := [{ declared := ⟨ascii "a", {}, .positional, none, none⟩
                   type := ascii "int, optional"
                   description := ascii "How often." }]
  returnType := ascii "bool"
  returnDescription := ascii "Whether it was done."
  yieldType := ascii "str"
  yieldDescription := ascii "What was done."
  session := ascii ">>> f(1)"

/-- A function of one parameter with the given docstring. -/
def sampleDeclaration (t : CanonicalText) : Declaration where
  form := .functionDecl ⟨ascii "f", {}⟩ (t.parameters.map ParameterText.declared) {}
  span := {}
  docstring := some (.ofText (t.literal [] doubleQuote 4 0) ⟨2, 5⟩)

theorem sampleText_sound : sampleText.Sound where
  summary := by decide
  summary_verb := by decide
  summary_current := by decide
  extended := by decide
  parameter_name := by decide +kernel
  parameter_type := by
    intro p hp
    have htype : p.type = ascii "int, optional" := by rw [List.mem_singleton.1 hp]
    -- The splitting recurs on the text that is left, so that it is evaluated, not decided.
    have hlisted : listedTypes (ascii "int, optional") = [ascii "int"] := by cbv
    have hoptional : (TypeList.ofText (ascii "int, optional") {} 0).optionalCount = 1 := by cbv
    rw [htype]
    refine ⟨by decide, by decide, by decide, by decide, ?_, ?_,
      ?_, ?_⟩
    · rw [hlisted]
      decide
    · rw [hlisted]
      decide
    · rw [hlisted]
      decide
    · rw [hoptional]
      exact UInt32.le_refl 1
  parameter_description := by decide
  returnType := by decide +kernel
  returnDescription := by decide
  yieldType := by decide +kernel
  yieldDescription := by decide
  session := by decide
  session_line := by decide

/-- The theorem at a function with a canonical docstring. -/
theorem validate_canonical_sampleText :
    (sampleText.Sound ∧ isQuote doubleQuote = true ∧ (Position.mk 2 5).column.toNat = 4 + 1) ∧
      (ofConfig {}).validate (sampleDeclaration sampleText) = [] :=
  ⟨⟨sampleText_sound, rfl, rfl⟩,
    validate_canonical {} sampleText_sound (List.forall_mem_nil _) rfl 0 rfl rfl rfl⟩

/-- A directive without colons is reported wherever it stands, unless its code is not wanted. -/
theorem exists_gl10_of_bareDirective (config : Config) {d : Declaration} {literal : DocLiteral}
    (hskips : config.skips d = false) (hdocstring : d.docstring = some literal)
    (hwanted : (config.isEnabled Code.gl10.name && !d.suppresses Code.gl10.name) = true)
    (hdirective : ∃ line ∈ literal.lines, Check.bareDirective? line.text ≠ none) :
    ∃ finding ∈ (ofConfig config).validate d, finding.code = Code.gl10.name := by
  have hanswers : ∀ check ∈ config.checks, ∃ code, check.id = code.name ∧
      Check.Answers code (check.run d (Docstring.ofLiteral literal).1) := fun check hcheck =>
    Check.registered_answer_ofLiteral d literal check (List.mem_of_mem_filter hcheck)
  obtain ⟨findings, hrun, hcarries⟩ := Check.directiveColons_answers d (Docstring.ofLiteral literal).1
  have hne : findings ≠ [] := by
    rintro rfl
    -- If there were no findings, no line would hold a directive.
    obtain ⟨line, hline, hbare⟩ := hdirective
    have hnil := Check.mapM_eq_silent_iff.1 ((Check.directiveColons_eq d _).symm.trans hrun)
    have hnone := List.filterMap_eq_nil_iff.1 hnil line hline
    exact hbare (Option.map_eq_none_iff.1 hnone)
  obtain ⟨finding, rest, rfl⟩ := List.exists_cons_of_ne_nil hne
  have hcode := (hcarries finding List.mem_cons_self).code_eq
  have hcheck : Check.ofCode .gl10 Check.directiveColons ∈ config.checks :=
    List.mem_filter.2 ⟨by simp [Check.registered], (Bool.and_eq_true _ _ ▸ hwanted).1⟩
  have hmem : finding ∈ (ofConfig config).runChecks d (Docstring.ofLiteral literal).1
      config.checks := by
    rw [runChecks_eq_flatMap _ hanswers, List.mem_flatMap]
    refine ⟨_, hcheck, ?_⟩
    rw [contribution_eq_filter _ rfl hrun hcarries, List.mem_filter, wants, hcode]
    exact ⟨List.mem_cons_self, hwanted⟩
  refine ⟨finding, ?_, hcode⟩
  have hexamined : ¬ (ofConfig config).config.skips d = true := by
    rw [Bool.not_eq_true]
    exact hskips
  unfold validate
  rw [if_neg hexamined, hdocstring]
  exact List.mem_append_right _ hmem

/-- Not every line will do as extended summary: a directive that lacks its colons is reported. -/
theorem validate_sampleText_directive :
    let extended := ascii ".. versionadded 1.0"
    (sampleText.Sound ∧ extended ≠ [] ∧ newline ∉ extended ∧ strip extended = extended) ∧
      (ofConfig {}).validate (sampleDeclaration { sampleText with extended }) ≠ [] := by
  refine ⟨⟨sampleText_sound, by decide⟩, ?_⟩
  obtain ⟨finding, hfinding, -⟩ := exists_gl10_of_bareDirective {}
    (d := sampleDeclaration { sampleText with extended := ascii ".. versionadded 1.0" })
    (by decide +kernel) rfl (by decide +kernel) (by decide +kernel)
  exact List.ne_nil_of_mem hfinding

end Validator

end DocLint
