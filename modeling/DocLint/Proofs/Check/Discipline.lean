import DocLint.Proofs.Check.Slices
import DocLint.Proofs.Docstring.Summary

/-!
# The discipline of the checks

A check that looks at a docstring which has lines, and a summary without blank ones, comes to an
answer: it does not fail, its findings are warnings with its own code, and none of them ends the
examination.

* `Answers`: the judgment, closed under the ways in which the checks are put together.
* `registered_answer`, `registered_answer_ofLiteral`: every registered check keeps it, and so every
  check of the docstring of a literal.
* `run_congr`: a check sees no more of a declaration than what it declares and where.
-/

namespace DocLint

open Bytes

/-- The finding is a warning with this code, and others may follow it. -/
structure Diagnostic.Carries (d : Diagnostic) (code : Code) : Prop where
  code_eq : d.code = code.name
  warning : d.severity = .warning
  continues : d.terminates = false

namespace Check

/-- The check did not fail, and all that it found carries the code. -/
def Answers (code : Code) (result : CheckResult) : Prop :=
  ∃ findings, result = .ok findings ∧ ∀ d ∈ findings, Diagnostic.Carries d code

section Closure

variable {code : Code}

theorem answers_silent : Answers code silent := ⟨[], rfl, by simp⟩

/-- A message whose fields all have arguments is a finding. -/
theorem report_eq_ok {arguments : List (Bytes × Bytes)}
    (covered : (code.template.fields.all fun name => (arguments.lookup name).isSome) = true)
    (span : Span) (suggestion : Option Bytes) :
    code.report span suggestion arguments = .ok (code.finding span suggestion arguments) := by
  have hfill : code.template.fill arguments = .ok (code.template.expand arguments) := by
    rw [Template.fill_eq_ok_iff]
    simpa using covered
  unfold Code.report
  rw [hfill]
  rfl

theorem carries_finding (continues : code.terminates = false) (span : Span)
    (suggestion : Option Bytes) (arguments : List (Bytes × Bytes)) :
    (code.finding span suggestion arguments).Carries code :=
  ⟨rfl, rfl, continues⟩

/-- One finding is an answer. -/
theorem answers_one {arguments : List (Bytes × Bytes)} {span : Span} {suggestion : Option Bytes}
    (covered : (code.template.fields.all fun name => (arguments.lookup name).isSome) = true)
    (continues : code.terminates = false) :
    Answers code (one (code.report span suggestion arguments)) := by
  refine ⟨[code.finding span suggestion arguments], ?_, ?_⟩
  · rw [report_eq_ok covered]
    rfl
  · intro d hd
    rw [List.mem_singleton.1 hd]
    exact carries_finding continues span suggestion arguments

/-- There is one finding about each element of a list. -/
theorem length_of_mapM {α : Type} {f : α → Except Failure Diagnostic} {xs : List α}
    {findings : List Diagnostic} (h : xs.mapM f = .ok findings) : findings.length = xs.length := by
  induction xs generalizing findings with
  | nil =>
      cases h
      rfl
  | cons x xs ih =>
      rw [List.mapM_cons] at h
      cases hx : f x with
      | error failure =>
          rw [hx] at h
          cases h
      | ok d =>
          cases hxs : xs.mapM f with
          | error failure =>
              rw [hx, hxs] at h
              cases h
          | ok ds =>
              rw [hx, hxs] at h
              cases h
              rw [List.length_cons, List.length_cons, ih hxs]

/-- Nothing is reported about no elements, and only about those. -/
theorem mapM_eq_silent_iff {α : Type} {f : α → Except Failure Diagnostic} {xs : List α} :
    xs.mapM f = silent ↔ xs = [] := by
  constructor
  · intro h
    exact List.length_eq_zero_iff.1 (length_of_mapM h).symm
  · rintro rfl
    rfl

/-- Findings about each element of a list are an answer. -/
theorem answers_mapM {α : Type} {f : α → Except Failure Diagnostic}
    (h : ∀ x, ∃ d, f x = .ok d ∧ d.Carries code) (xs : List α) : Answers code (xs.mapM f) := by
  induction xs with
  | nil => exact ⟨[], rfl, by simp⟩
  | cons x xs ih =>
      obtain ⟨d, hd, hcarries⟩ := h x
      obtain ⟨ds, hds, hall⟩ := ih
      refine ⟨d :: ds, ?_, ?_⟩
      · rw [List.mapM_cons, hd, hds]
        rfl
      · intro e he
        rcases List.mem_cons.1 he with rfl | he
        · exact hcarries
        · exact hall e he

/-- One element's finding, for `answers_mapM`. -/
theorem report_carries {arguments : List (Bytes × Bytes)} (span : Span) (suggestion : Option Bytes)
    (covered : (code.template.fields.all fun name => (arguments.lookup name).isSome) = true)
    (continues : code.terminates = false) :
    ∃ d, code.report span suggestion arguments = .ok d ∧ d.Carries code :=
  ⟨_, report_eq_ok covered span suggestion, carries_finding continues span suggestion arguments⟩

theorem answers_ofParameters {d : Declaration} {result : CheckResult}
    (h : Answers code result) : Answers code (ofParameters d result) := by
  unfold ofParameters
  split
  · exact h
  · exact answers_silent

theorem answers_ofCallable {d : Declaration} {result : CheckResult}
    (h : Answers code result) : Answers code (ofCallable d result) := by
  unfold ofCallable
  split
  · exact h
  · exact answers_silent

/-- The rules about descriptions differ in their code, their predicate and their suggestion. -/
theorem answers_descriptions {field : String} {p : Paragraph → Bool} {suggestion : String}
    (covered : ∀ entry, (code.template.fields.all fun name =>
      ((subject field entry).lookup name).isSome) = true)
    (continues : code.terminates = false) (entries : List ParameterEntry) :
    Answers code (descriptions code field p suggestion entries) :=
  answers_mapM (fun entry => report_carries _ _ (covered entry) continues) _

end Closure

variable (d : Declaration) (doc : Docstring)

/-! ### The layout -/

theorem openingLine_answers : Answers .gl01 (openingLine d doc) := by
  unfold openingLine
  dsimp only
  split
  · exact answers_silent
  · split
    · exact answers_silent
    · exact answers_one rfl rfl

theorem closingLine_answers : Answers .gl02 (closingLine d doc) := by
  unfold closingLine
  dsimp only
  split
  · exact answers_silent
  · split
    · exact answers_silent
    · exact answers_one rfl rfl

theorem doubleBlank_answers : Answers .gl03 (doubleBlank d doc) :=
  answers_mapM (fun _ => report_carries _ _ rfl rfl) _

theorem tabs_answers : Answers .gl05 (tabs d doc) :=
  answers_mapM (fun _ => report_carries _ _ rfl rfl) _

theorem unknownSection_answers : Answers .gl06 (unknownSection d doc) :=
  answers_mapM (fun _ => report_carries _ _ rfl rfl) _

theorem sectionOrder_answers : Answers .gl07 (sectionOrder d doc) :=
  answers_mapM (fun _ => report_carries _ _ rfl rfl) _

theorem deprecationPlace_answers : Answers .gl09 (deprecationPlace d doc) := by
  unfold deprecationPlace
  split
  · exact answers_silent
  · split
    · exact answers_silent
    · split
      · exact answers_silent
      · exact answers_one rfl rfl

theorem directiveColons_answers : Answers .gl10 (directiveColons d doc) := by
  rw [directiveColons_eq]
  exact answers_mapM (fun _ => report_carries _ _ rfl rfl) _

theorem repeatedDeprecation_answers : Answers .gle01 (repeatedDeprecation d doc) := by
  unfold repeatedDeprecation
  split
  · exact answers_silent
  · split
    · exact answers_silent
    · exact answers_mapM (fun _ => report_carries _ _ rfl rfl) _

/-! ### The summary -/

theorem summaryMissing_answers : Answers .ss01 (summaryMissing d doc) := by
  unfold summaryMissing
  split
  · exact answers_one rfl rfl
  · exact answers_silent

/-- The first line of the summary has a first byte. -/
theorem summaryCapital_answers
    (readable : ∀ line ∈ summaryLines doc, line.isBlank = false) :
    Answers .ss02 (summaryCapital d doc) := by
  unfold summaryCapital
  split
  · exact answers_silent
  next first rest hlines =>
    have hfirst : first.isBlank = false := readable first (by simp [hlines])
    split
    next hnone =>
      -- A line without a first byte would be blank.
      have hblank : first.isBlank = true := stripStart_eq_nil_iff.1 hnone
      rw [hblank] at hfirst
      cases hfirst
    · split
      · exact answers_one rfl rfl
      · exact answers_silent

theorem summaryPeriod_answers : Answers .ss03 (summaryPeriod d doc) := by
  unfold summaryPeriod
  split
  · exact answers_silent
  · dsimp only
    split
    · exact answers_silent
    · exact answers_one rfl rfl

/-- The indentation of the summary is compared with that of the first line of the docstring. -/
theorem summaryIndent_answers (opened : doc.lines ≠ []) :
    Answers .ss04 (summaryIndent d doc) := by
  unfold summaryIndent
  split
  · exact answers_silent
  · dsimp only
    split
    next hnone => exact absurd (List.isEmpty_iff.1 hnone) opened
    · split
      · exact answers_silent
      · split
        · exact answers_one rfl rfl
        · exact answers_one rfl rfl

theorem summaryVerb_answers : Answers .ss05 (summaryVerb d doc) := by
  rw [summaryVerb_eq]
  split
  · exact answers_silent
  · dsimp only
    split
    · exact answers_one rfl rfl
    · exact answers_silent

theorem summaryLength_answers : Answers .ss06 (summaryLength d doc) := by
  unfold summaryLength
  split
  · split
    · exact answers_silent
    · exact answers_one rfl rfl
  · exact answers_silent

theorem extendedMissing_answers : Answers .es01 (extendedMissing d doc) := by
  unfold extendedMissing
  split
  · exact answers_silent
  · split
    · exact answers_silent
    · exact answers_one rfl rfl

theorem examplesMissing_answers : Answers .ex01 (examplesMissing d doc) := by
  unfold examplesMissing
  split
  · exact answers_silent
  · exact answers_one rfl rfl

/-! ### The parameters -/

theorem undocumentedParameters_answers : Answers .pr01 (undocumentedParameters d doc) :=
  answers_ofParameters (answers_mapM (fun _ => report_carries _ _ rfl rfl) _)

theorem undeclaredParameters_answers : Answers .pr02 (undeclaredParameters d doc) :=
  answers_ofParameters (answers_mapM (fun _ => report_carries _ _ rfl rfl) _)

theorem parameterOrder_answers : Answers .pr03 (parameterOrder d doc) := by
  rw [parameterOrder_eq]
  exact answers_ofParameters (answers_mapM (fun _ => report_carries _ _ rfl rfl) _)

theorem typeMissing_answers : Answers .pr04 (typeMissing d doc) :=
  answers_ofParameters (answers_mapM (fun _ => report_carries _ _ rfl rfl) _)

theorem typePeriod_answers : Answers .pr05 (typePeriod d doc) :=
  answers_ofParameters (answers_mapM (fun _ => report_carries _ _ rfl rfl) _)

theorem typeNames_answers : Answers .pr06 (typeNames d doc) :=
  answers_ofParameters (answers_mapM (fun _ => report_carries _ _ rfl rfl) _)

theorem parameterDescribed_answers : Answers .pr07 (parameterDescribed d doc) :=
  answers_ofParameters (answers_descriptions (fun _ => rfl) rfl _)

theorem parameterCapitalized_answers : Answers .pr08 (parameterCapitalized d doc) :=
  answers_ofParameters (answers_descriptions (fun _ => rfl) rfl _)

theorem parameterPunctuated_answers : Answers .pr09 (parameterPunctuated d doc) :=
  answers_ofParameters (answers_descriptions (fun _ => rfl) rfl _)

theorem colonSpacing_answers : Answers .pr10 (colonSpacing d doc) :=
  answers_ofParameters (answers_mapM (fun _ => report_carries _ _ rfl rfl) _)

theorem blankAboveDescription_answers : Answers .pre01 (blankAboveDescription d doc) :=
  answers_ofParameters (answers_mapM (fun _ => report_carries _ _ rfl rfl) _)

theorem blankBelowDescription_answers : Answers .pre02 (blankBelowDescription d doc) :=
  answers_ofParameters (answers_mapM (fun _ => report_carries _ _ rfl rfl) _)

theorem repeatedOptional_answers : Answers .pre03 (repeatedOptional d doc) :=
  answers_ofParameters (answers_mapM (fun _ => report_carries _ _ rfl rfl) _)

theorem emptyChoices_answers : Answers .pre04 (emptyChoices d doc) := by
  rw [emptyChoices_eq]
  exact answers_ofParameters (answers_mapM (fun _ => report_carries _ _ rfl rfl) _)

/-! ### The results -/

theorem returnsMissing_answers : Answers .rt01 (returnsMissing d doc) := by
  unfold returnsMissing
  split
  · exact answers_silent
  · exact answers_one rfl rfl

theorem namedReturn_answers : Answers .rt02 (namedReturn d doc) := by
  apply answers_ofCallable
  split
  · split
    · exact answers_silent
    · exact answers_one rfl rfl
  · exact answers_silent

theorem returnDescribed_answers : Answers .rt03 (returnDescribed d doc) :=
  answers_ofCallable (answers_descriptions (fun _ => rfl) rfl _)

theorem returnCapitalized_answers : Answers .rt04 (returnCapitalized d doc) :=
  answers_ofCallable (answers_descriptions (fun _ => rfl) rfl _)

theorem returnPunctuated_answers : Answers .rt05 (returnPunctuated d doc) :=
  answers_ofCallable (answers_descriptions (fun _ => rfl) rfl _)

theorem yieldsMissing_answers : Answers .yd01 (yieldsMissing d doc) := by
  unfold yieldsMissing
  split
  · exact answers_silent
  · exact answers_one rfl rfl

/-! ### All of them -/

/-- Every registered check answers with its own code. -/
theorem registered_answer (opened : doc.lines ≠ [])
    (readable : ∀ line ∈ summaryLines doc, line.isBlank = false) :
    ∀ check ∈ registered, ∃ code, check.id = code.name ∧ Answers code (check.run d doc) := by
  simp only [registered, List.forall_mem_cons, ofCode]
  exact ⟨⟨_, rfl, openingLine_answers d doc⟩, ⟨_, rfl, closingLine_answers d doc⟩,
    ⟨_, rfl, doubleBlank_answers d doc⟩, ⟨_, rfl, tabs_answers d doc⟩,
    ⟨_, rfl, unknownSection_answers d doc⟩, ⟨_, rfl, sectionOrder_answers d doc⟩,
    ⟨_, rfl, deprecationPlace_answers d doc⟩, ⟨_, rfl, directiveColons_answers d doc⟩,
    ⟨_, rfl, repeatedDeprecation_answers d doc⟩, ⟨_, rfl, summaryMissing_answers d doc⟩,
    ⟨_, rfl, summaryCapital_answers d doc readable⟩, ⟨_, rfl, summaryPeriod_answers d doc⟩,
    ⟨_, rfl, summaryIndent_answers d doc opened⟩, ⟨_, rfl, summaryVerb_answers d doc⟩,
    ⟨_, rfl, summaryLength_answers d doc⟩, ⟨_, rfl, extendedMissing_answers d doc⟩,
    ⟨_, rfl, examplesMissing_answers d doc⟩, ⟨_, rfl, undocumentedParameters_answers d doc⟩,
    ⟨_, rfl, undeclaredParameters_answers d doc⟩, ⟨_, rfl, parameterOrder_answers d doc⟩,
    ⟨_, rfl, typeMissing_answers d doc⟩, ⟨_, rfl, typePeriod_answers d doc⟩,
    ⟨_, rfl, typeNames_answers d doc⟩, ⟨_, rfl, parameterDescribed_answers d doc⟩,
    ⟨_, rfl, parameterCapitalized_answers d doc⟩, ⟨_, rfl, parameterPunctuated_answers d doc⟩,
    ⟨_, rfl, colonSpacing_answers d doc⟩, ⟨_, rfl, blankAboveDescription_answers d doc⟩,
    ⟨_, rfl, blankBelowDescription_answers d doc⟩, ⟨_, rfl, repeatedOptional_answers d doc⟩,
    ⟨_, rfl, emptyChoices_answers d doc⟩, ⟨_, rfl, returnsMissing_answers d doc⟩,
    ⟨_, rfl, namedReturn_answers d doc⟩, ⟨_, rfl, returnDescribed_answers d doc⟩,
    ⟨_, rfl, returnCapitalized_answers d doc⟩, ⟨_, rfl, returnPunctuated_answers d doc⟩,
    ⟨_, rfl, yieldsMissing_answers d doc⟩, by simp⟩

/-- Every registered check answers about the docstring of a literal. -/
theorem registered_answer_ofLiteral (literal : DocLiteral) :
    ∀ check ∈ registered, ∃ code, check.id = code.name ∧
      Answers code (check.run d (Docstring.ofLiteral literal).1) :=
  registered_answer d _ (ofLiteral_lines_ne_nil literal) (summaryLines_ofLiteral_not_blank literal)

/-- A check sees what is declared and where, but neither the docstring literal nor the suppressed
codes of the declaration. -/
theorem run_congr {d e : Declaration} (form : d.form = e.form) (span : d.span = e.span) :
    ∀ check ∈ registered, check.run d = check.run e := by
  obtain ⟨f, s, _, _⟩ := d
  obtain ⟨_, _, _, _⟩ := e
  subst form
  subst span
  simp only [registered, List.forall_mem_cons, ofCode]
  -- What is left of the declarations is equal, so that each check computes to the same.
  and_intros
  all_goals first | rfl | simp

end Check

end DocLint
