import DocLint.Lint.Validator

/-!
# Checks do not disturb each other

A check may answer with findings or fail, and the report goes on with the next check in both cases.
Only a finding that is reported and ends the examination cuts the report off.  What a check adds to
the report depends on this check alone.

* `runChecks_eq_upToTerminating`: the checks contribute one after the other, up to a terminating
  finding.
* `upToTerminating_eq`: where the report is cut off.
* `contributes_contribution`: what a check contributes.
* `validate_isolated`: the report as a whole, with another check in the place of one, and with checks
  whose terminating findings are not reported.
-/

namespace DocLint

namespace Validator

/-! ### Cutting off -/

/-- The findings up to the first terminating one, that one included. -/
theorem upToTerminating_eq (found : List Diagnostic) :
    upToTerminating found =
      found.takeWhile (fun f => !f.terminates) ++ (found.find? Diagnostic.terminates).toList := by
  induction found with
  | nil => rfl
  | cons f found ih =>
      rw [upToTerminating]
      cases hf : f.terminates with
      | true => simp [hf]
      | false => simp [hf, ih]

theorem upToTerminating_append (front back : List Diagnostic) :
    upToTerminating (front ++ back) =
      if front.any Diagnostic.terminates then upToTerminating front
      else front ++ upToTerminating back := by
  induction front with
  | nil => rfl
  | cons f front ih =>
      rw [List.cons_append, upToTerminating, upToTerminating, ih, List.any_cons]
      cases f.terminates with
      | true => rfl
      | false =>
          rw [Bool.false_or]
          simp only [Bool.false_eq_true, if_false]
          split <;> rfl

/-- Contributions that end nothing are followed by those of the later checks. -/
theorem upToTerminating_append_of_continues {front : List Diagnostic}
    (h : ∀ f ∈ front, f.terminates = false) (back : List Diagnostic) :
    upToTerminating (front ++ back) = front ++ upToTerminating back := by
  have hnone : front.any Diagnostic.terminates = false :=
    List.any_eq_false.2 fun f hf => by simp [h f hf]
  rw [upToTerminating_append, hnone, if_neg Bool.false_ne_true]

theorem upToTerminating_of_continues {found : List Diagnostic}
    (h : ∀ f ∈ found, f.terminates = false) : upToTerminating found = found := by
  have happend := upToTerminating_append_of_continues h []
  rwa [List.append_nil, upToTerminating, List.append_nil] at happend

theorem mem_of_mem_upToTerminating {found : List Diagnostic} {f : Diagnostic}
    (h : f ∈ upToTerminating found) : f ∈ found := by
  rw [upToTerminating_eq, List.mem_append, Option.mem_toList] at h
  rcases h with h | h
  · exact (List.takeWhile_sublist _).subset h
  · exact List.mem_of_find?_eq_some h

/-! ### Contributions -/

/-- What is reported of a check that failed. -/
def failureReport (d : Declaration) (check : Check) (failure : Failure) : Diagnostic where
  severity := .warning
  code := ascii "GLE99"
  span := d.anchor
  message := ascii "Check `" ++ (check.id ++ (ascii "` failed: " ++ failure.reason))
  suggestion := none
  terminates := false

/-- What a check adds to the report: nothing where a comment names it, or else those of its findings
that are reported, or nothing but its failure if that is reported. -/
inductive Contributes (v : Validator) (d : Declaration) (doc : Docstring) (check : Check) :
    List Diagnostic → Prop
  | suppressed : check.id ∈ d.noqa → Contributes v d doc check []
  | answered {findings : List Diagnostic} : check.id ∉ d.noqa → check.run d doc = .ok findings →
      Contributes v d doc check (findings.filter (v.reports d))
  | failed {failure : Failure} : check.id ∉ d.noqa → check.run d doc = .error failure →
      v.reports d (failureReport d check failure) = true →
      Contributes v d doc check [failureReport d check failure]
  | unreported {failure : Failure} : check.id ∉ d.noqa → check.run d doc = .error failure →
      v.reports d (failureReport d check failure) = false → Contributes v d doc check []

theorem failedCheck_eq (d : Declaration) (check : Check) (failure : Failure) :
    failedCheck d check.id failure = failureReport d check failure := by
  have hmessage : Code.gle99.template.expand
      [(ascii "check", check.id), (ascii "reason", failure.reason)] =
        ascii "Check `" ++ (check.id ++ (ascii "` failed: " ++ (failure.reason ++ []))) := rfl
  rw [List.append_nil] at hmessage
  rw [failedCheck, Code.finding, hmessage]
  rfl

variable (v : Validator) (d : Declaration) (doc : Docstring)

theorem contributes_contribution (check : Check) :
    v.Contributes d doc check (v.contribution d doc check) := by
  rw [contribution]
  split
  next hid => exact .suppressed (List.contains_iff_mem.1 hid)
  next hid =>
    have hid : check.id ∉ d.noqa := fun hmem => hid (List.contains_iff_mem.2 hmem)
    split
    next failure hrun =>
      rw [failedCheck_eq, List.filter_cons, List.filter_nil]
      split
      next hreported => exact .failed hid hrun hreported
      next hreported => exact .unreported hid hrun (eq_false_of_ne_true hreported)
    next findings hrun => exact .answered hid hrun

/-- No finding of the check that ends the examination is reported. -/
def Passes (check : Check) : Prop :=
  ∀ findings, check.run d doc = .ok findings →
    ∀ f ∈ findings, f.terminates = true → v.reports d f = false

variable {d doc}

/-- What such a check contributes ends nothing. -/
theorem Passes.continues {check : Check} (h : v.Passes d doc check) :
    ∀ f ∈ v.contribution d doc check, f.terminates = false := by
  intro f hf
  have hcontributes := v.contributes_contribution d doc check
  generalize v.contribution d doc check = found at hf hcontributes
  cases hcontributes with
  | suppressed => cases hf
  | answered _ hrun =>
      obtain ⟨hf, hreported⟩ := List.mem_filter.1 hf
      cases hterminates : f.terminates with
      | false => rfl
      | true =>
          rw [h _ hrun f hf hterminates] at hreported
          cases hreported
  | failed =>
      rw [List.mem_singleton.1 hf]
      rfl
  | unreported => cases hf

theorem flatMap_continues {checks : List Check} (h : ∀ check ∈ checks, v.Passes d doc check) :
    ∀ f ∈ checks.flatMap (v.contribution d doc), f.terminates = false := by
  intro f hf
  obtain ⟨check, hcheck, hf⟩ := List.mem_flatMap.1 hf
  exact (h check hcheck).continues v f hf

/-- A failure ends nothing. -/
theorem passes_of_error {check : Check} {failure : Failure} (h : check.run d doc = .error failure) :
    v.Passes d doc check := by
  intro findings hrun
  rw [h] at hrun
  cases hrun

variable (d doc)

/-- The checks contribute one after the other, up to the first terminating finding. -/
theorem runChecks_eq_upToTerminating (checks : List Check) :
    v.runChecks d doc checks = upToTerminating (checks.flatMap (v.contribution d doc)) := by
  induction checks with
  | nil => rfl
  | cons check checks ih => rw [runChecks, List.flatMap_cons, upToTerminating_append, ih]

variable {d doc}

/-! ### Reports -/

/-- The report of a declaration with a docstring: the flaws of the docstring, and what the checks
contribute up to the first terminating finding. -/
theorem validate_eq_append {v : Validator} {literal : DocLiteral}
    (hexamined : v.config.skips d = false) (hdocstring : d.docstring = some literal) :
    v.validate d = ((Docstring.ofLiteral literal).2.map Flaw.diagnostic).filter (v.reports d) ++
      upToTerminating (v.checks.flatMap (v.contribution d (Docstring.ofLiteral literal).1)) := by
  rw [validate, hexamined, hdocstring, if_neg Bool.false_ne_true, ← runChecks_eq_upToTerminating]

/-- Checks answer or fail for themselves.  The report is what the docstring and then the checks
contribute, cut off behind the first terminating finding that is reported, and a check contributes
its reported findings or its failure, or nothing where a comment names it.  Any check that ends
nothing, and so any that fails, can stand in the place of another one without a change to the rest of
the report, and checks whose terminating findings are not reported do not keep the later checks from
the report. -/
theorem validate_isolated {v : Validator} {d : Declaration} {literal : DocLiteral}
    (hexamined : v.config.skips d = false) (hdocstring : d.docstring = some literal) :
    let doc := (Docstring.ofLiteral literal).1
    let flaws := ((Docstring.ofLiteral literal).2.map Flaw.diagnostic).filter (v.reports d)
    let found := v.checks.flatMap (v.contribution d doc)
    v.validate d = flaws ++ (found.takeWhile (fun f => !f.terminates) ++
        (found.find? Diagnostic.terminates).toList) ∧
      (∀ check, v.Contributes d doc check (v.contribution d doc check)) ∧
      (∀ check failure, check.run d doc = .error failure → v.Passes d doc check) ∧
      (∀ front back, ∃ above below reached, ∀ check, v.Passes d doc check →
        (Validator.mk v.config (front ++ check :: back)).validate d =
          above ++ (if reached = true then v.contribution d doc check else []) ++ below) ∧
      ∀ front back, (∀ check ∈ front, v.Passes d doc check) →
        (Validator.mk v.config (front ++ back)).validate d =
          (Validator.mk v.config front).validate d ++
            upToTerminating (back.flatMap (v.contribution d doc)) := by
  intro doc flaws found
  have hreport (checks : List Check) : (Validator.mk v.config checks).validate d =
      flaws ++ upToTerminating (checks.flatMap (v.contribution d doc)) :=
    validate_eq_append hexamined hdocstring
  refine ⟨?_, v.contributes_contribution d doc, fun _ _ h => v.passes_of_error h, ?_, ?_⟩
  · rw [← upToTerminating_eq]
    exact hreport v.checks
  · intro front back
    by_cases hreached : (front.flatMap (v.contribution d doc)).any Diagnostic.terminates = true
    · -- The report is cut off in front of the check.
      refine ⟨flaws ++ upToTerminating (front.flatMap (v.contribution d doc)), [], false,
        fun check _ => ?_⟩
      rw [hreport, List.flatMap_append, upToTerminating_append, if_pos hreached,
        if_neg Bool.false_ne_true, List.append_nil, List.append_nil]
    · refine ⟨flaws ++ front.flatMap (v.contribution d doc),
        upToTerminating (back.flatMap (v.contribution d doc)), true, fun check hpasses => ?_⟩
      rw [hreport, List.flatMap_append, List.flatMap_cons, upToTerminating_append,
        if_neg hreached, upToTerminating_append_of_continues (hpasses.continues v), if_pos rfl]
      simp only [List.append_assoc]
  · intro front back hpasses
    have hcontinues := v.flatMap_continues hpasses
    rw [hreport, hreport, List.flatMap_append, upToTerminating_append_of_continues hcontinues,
      upToTerminating_of_continues hcontinues, List.append_assoc]

/-- A check that fails. -/
def sampleFailing : Check := ⟨ascii "SS03", fun _ _ => .error (.raised (ascii "no word"))⟩

/-- A check whose second finding ends the examination. -/
def sampleEnding (code : Bytes) : Check :=
  ⟨code, fun _ _ => .ok [{ code }, { code, terminates := true }, { code }]⟩

/-- Checks of which two end the examination, for a declaration that suppresses the first. -/
def sampleValidator : Validator :=
  ⟨{}, [⟨ascii "SS02", fun _ _ => .ok [{ code := ascii "SS01", terminates := true }]⟩,
    sampleFailing, sampleEnding (ascii "SS04"), sampleEnding (ascii "SS05")]⟩

/-- A documented module with a comment against one code. -/
def sampleModule : Declaration where
  form := .moduleDecl
  span := {}
  docstring := some (.ofText (ascii "'Text'") ⟨1, 1⟩)
  noqa := [ascii "SS01"]

theorem validate_isolated_sampleModule :
    sampleValidator.config.skips sampleModule = false ∧
      sampleModule.docstring = some (.ofText (ascii "'Text'") ⟨1, 1⟩) ∧
      ∃ flaws, sampleValidator.validate sampleModule =
        flaws ++ [failureReport sampleModule sampleFailing (.raised (ascii "no word")),
          { code := ascii "SS04" }, { code := ascii "SS04", terminates := true }] := by
  have hexamined : sampleValidator.config.skips sampleModule = false := by decide
  have hreport := (validate_isolated hexamined (d := sampleModule) rfl).1
  generalize (Docstring.ofLiteral (.ofText (ascii "'Text'") ⟨1, 1⟩)).1 = doc at hreport
  exact ⟨hexamined, rfl, _, hreport⟩

end Validator

end DocLint
