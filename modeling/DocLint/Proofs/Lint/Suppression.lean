import DocLint.Proofs.Check.Discipline
import DocLint.Proofs.Lint.Isolation

/-!
# Suppression is a filter

A code can be kept from the report in three ways: its check is not selected, its check is passed
over because a comment names it, or its findings are dropped one by one.  Since a registered check
reports nothing but its own code, and nothing that it reports ends the examination, all three come
to the same: the findings of the unrestricted examination, less those whose code is not wanted.

* `runChecks_eq_flatMap`: checks that keep the discipline run independently of each other.
* `validate_eq_filter`: selection, suppression and filtering agree.
-/

namespace DocLint

namespace Config

/-- The configuration without any selection of codes. -/
def unrestricted (c : Config) : Config := { c with select := [], ignore := [] }

@[simp] theorem isEnabled_unrestricted (c : Config) (code : Bytes) :
    c.unrestricted.isEnabled code = true := by
  simp [unrestricted, isEnabled, beginsLike]

/-- Without a selection every registered check is run. -/
@[simp] theorem checks_unrestricted (c : Config) : c.unrestricted.checks = Check.registered := by
  simp [checks]

end Config

namespace Declaration

/-- The declaration without the comments that suppress codes. -/
def unsuppressed (d : Declaration) : Declaration := { d with noqa := [] }

@[simp] theorem suppresses_unsuppressed (d : Declaration) (code : Bytes) :
    d.unsuppressed.suppresses code = false := by
  simp [unsuppressed, suppresses]

end Declaration

namespace Validator

/-- A finding of some code is wanted. -/
def wants (c : Config) (d : Declaration) (finding : Diagnostic) : Bool :=
  c.isEnabled finding.code && !d.suppresses finding.code

theorem reports_eq_wants (v : Validator) (d : Declaration) : v.reports d = wants v.config d := rfl

/-- Without selection and suppression every finding is wanted. -/
theorem wants_unrestricted (c : Config) (d : Declaration) :
    wants c.unrestricted d.unsuppressed = fun _ => true := by
  funext finding
  simp [wants]

section Checks

variable {d : Declaration} {doc : Docstring}

/-- What a disciplined check contributes are those of its findings that are wanted. -/
theorem contribution_eq_filter (v : Validator) {check : Check} {code : Code}
    {findings : List Diagnostic} (id : check.id = code.name) (run : check.run d doc = .ok findings)
    (carries : ∀ f ∈ findings, f.Carries code) :
    v.contribution d doc check = findings.filter (wants v.config d) := by
  unfold contribution
  rw [run]
  by_cases hsup : d.suppresses check.id = true
  · rw [if_pos hsup, eq_comm, List.filter_eq_nil_iff]
    intro f hf
    simp [wants, (carries f hf).code_eq, ← id, hsup]
  · rw [if_neg hsup]
    rfl

/-- The contributions of disciplined checks follow each other: none of them ends the run. -/
theorem runChecks_eq_flatMap (v : Validator) {checks : List Check}
    (answers : ∀ check ∈ checks, ∃ code, check.id = code.name ∧
      Check.Answers code (check.run d doc)) :
    v.runChecks d doc checks = checks.flatMap (v.contribution d doc) := by
  rw [runChecks_eq_upToTerminating]
  refine upToTerminating_of_continues fun f hf => ?_
  obtain ⟨check, hcheck, hf⟩ := List.mem_flatMap.1 hf
  obtain ⟨code, hid, findings, hrun, hcarries⟩ := answers check hcheck
  rw [contribution_eq_filter v hid hrun hcarries] at hf
  exact (hcarries f (List.mem_of_mem_filter hf)).continues

/-- A check that is not selected would have contributed nothing. -/
theorem contribution_eq_nil_of_not_enabled (v : Validator) {check : Check}
    (answer : ∃ code, check.id = code.name ∧ Check.Answers code (check.run d doc))
    (disabled : v.config.isEnabled check.id = false) : v.contribution d doc check = [] := by
  obtain ⟨code, hid, findings, hrun, hcarries⟩ := answer
  rw [contribution_eq_filter v hid hrun hcarries, List.filter_eq_nil_iff]
  intro f hf
  rw [hid] at disabled
  simp [wants, (hcarries f hf).code_eq, disabled]

/-- Leaving out the checks that are not selected leaves out nothing else. -/
theorem flatMap_contribution_filter (v : Validator) {checks : List Check}
    (answers : ∀ check ∈ checks, ∃ code, check.id = code.name ∧
      Check.Answers code (check.run d doc)) :
    (checks.filter fun check => v.config.isEnabled check.id).flatMap (v.contribution d doc) =
      checks.flatMap (v.contribution d doc) := by
  induction checks with
  | nil => rfl
  | cons check rest ih =>
      have hrest := ih fun c hc => answers c (List.mem_cons_of_mem check hc)
      rw [List.filter_cons, List.flatMap_cons]
      cases henabled : v.config.isEnabled check.id with
      | true => rw [if_pos rfl, List.flatMap_cons, hrest]
      | false =>
          have hnil :=
            contribution_eq_nil_of_not_enabled v (answers check List.mem_cons_self) henabled
          rw [if_neg Bool.false_ne_true, hnil, hrest, List.nil_append]

end Checks

/-- All that is found about a declaration with a docstring, before anything is left out. -/
theorem runChecks_registered (c : Config) (d : Declaration) (literal : DocLiteral) :
    (Validator.mk c Check.registered).runChecks d (Docstring.ofLiteral literal).1
        Check.registered =
      ((Validator.mk c.unrestricted Check.registered).runChecks d.unsuppressed
        (Docstring.ofLiteral literal).1 Check.registered).filter (wants c d) := by
  have hanswers := Check.registered_answer_ofLiteral d literal
  have hanswers' := Check.registered_answer_ofLiteral d.unsuppressed literal
  rw [runChecks_eq_flatMap _ hanswers, runChecks_eq_flatMap _ hanswers', List.filter_flatMap]
  refine List.flatMap_congr fun check hcheck => ?_
  obtain ⟨code, hid, findings, hrun, hcarries⟩ := hanswers check hcheck
  have hsame : check.run d.unsuppressed = check.run d :=
    Check.run_congr (d := d.unsuppressed) (e := d) rfl rfl check hcheck
  rw [contribution_eq_filter _ hid hrun hcarries,
    contribution_eq_filter _ hid (by rw [hsame, hrun]) hcarries, wants_unrestricted,
    List.filter_true]

/-- Selecting checks up front, passing over a check by its id and dropping single findings agree:
the report is the unrestricted one without the findings whose code is not enabled or is suppressed,
and it is the same when no check is left out up front. -/
theorem validate_eq_filter (c : Config) (d : Declaration) :
    (ofConfig c).validate d =
        ((ofConfig { c with select := [], ignore := [] }).validate { d with noqa := [] }).filter
          (fun f => c.isEnabled f.code && !d.suppresses f.code) ∧
      (ofConfig c).validate d = (Validator.mk c Check.registered).validate d := by
  show (ofConfig c).validate d =
      ((ofConfig c.unrestricted).validate d.unsuppressed).filter (wants c d) ∧
    (ofConfig c).validate d = (Validator.mk c Check.registered).validate d
  have hunrestricted : ofConfig c.unrestricted = ⟨c.unrestricted, Check.registered⟩ := by
    rw [ofConfig, Config.checks_unrestricted]
  have hskips : c.unrestricted.skips d.unsuppressed = c.skips d := rfl
  rw [hunrestricted]
  unfold validate
  simp only [hskips, ofConfig]
  by_cases hskip : c.skips d = true
  · simp [hskip]
  simp only [hskip, Bool.false_eq_true, if_false]
  have hdoc : d.unsuppressed.docstring = d.docstring := rfl
  rw [hdoc]
  cases d.docstring with
  | none =>
      -- The missing docstring is reported before any check is run.
      have hmissing : missingDocstring d.unsuppressed = missingDocstring d := rfl
      simp only [hmissing, reports_eq_wants, wants_unrestricted, List.filter_true, and_self]
  | some literal =>
      have hanswers := Check.registered_answer_ofLiteral d literal
      have hselectedAnswers : ∀ check ∈ c.checks, ∃ code, check.id = code.name ∧
          Check.Answers code (check.run d (Docstring.ofLiteral literal).1) :=
        fun check hcheck => hanswers check (List.mem_of_mem_filter hcheck)
      have hselected : (Validator.mk c c.checks).runChecks d (Docstring.ofLiteral literal).1
            c.checks =
          (Validator.mk c Check.registered).runChecks d (Docstring.ofLiteral literal).1
            Check.registered := by
        rw [runChecks_eq_flatMap _ hanswers, runChecks_eq_flatMap _ hselectedAnswers]
        exact flatMap_contribution_filter (Validator.mk c Check.registered) hanswers
      simp only [hselected, runChecks_registered c d literal, reports_eq_wants,
        wants_unrestricted, List.filter_true, List.filter_append, and_self]

end Validator

end DocLint
