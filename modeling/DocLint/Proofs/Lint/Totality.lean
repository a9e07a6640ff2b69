import DocLint.Proofs.Lint.Suppression

/-!
# No check fails

The failure of a check has a code of its own, so that a report could say that a check was not
carried out.  It never does: every registered check answers about every docstring that is read from
a literal, with findings under its own code, and nothing else that is reported has that code.

* `registered_code_ne_gle99`, `Flaw.code_ne_gle99`: who reports does not use the code.
* `code_of_mem_validate`: where a finding of a report comes from.
* `registered_never_fail`: the checks and the reports.
-/

namespace DocLint

/-- No check reports its failure as a finding. -/
theorem Check.registered_id_ne_gle99 : ∀ check ∈ registered, check.id ≠ Code.gle99.name := by
  decide

/-- No flaw of a docstring is reported as the failure of a check. -/
theorem Flaw.code_ne_gle99 (flaw : Flaw) : flaw.diagnostic.code ≠ Code.gle99.name := by
  cases flaw with
  | crowdedSection => exact (by decide : Code.gle02.name ≠ Code.gle99.name)
  | underlineLength => exact (by decide : Code.gle03.name ≠ Code.gle99.name)
  | strayMark => exact (by decide : Code.sae01.name ≠ Code.gle99.name)

namespace Validator

/-- Where a finding comes from: the declaration has no docstring, its docstring has a flaw, or a
registered check reports under its own code. -/
theorem code_of_mem_validate {config : Config} {d : Declaration} {f : Diagnostic}
    (h : f ∈ (ofConfig config).validate d) :
    f = missingDocstring d ∨ (∃ flaw : Flaw, f = flaw.diagnostic) ∨
      ∃ check ∈ Check.registered, f.code = check.id := by
  unfold validate at h
  split at h
  · cases h
  split at h
  · exact .inl (List.mem_singleton.1 (List.mem_of_mem_filter h))
  next literal _ =>
    have hanswers := Check.registered_answer_ofLiteral d literal
    have hselected : ∀ check ∈ config.checks, check ∈ Check.registered := fun check hcheck =>
      List.mem_of_mem_filter hcheck
    dsimp only [ofConfig] at h
    rw [runChecks_eq_flatMap _ fun check hcheck => hanswers check (hselected check hcheck)] at h
    rcases List.mem_append.1 h with hflaw | hcheck
    · obtain ⟨flaw, -, rfl⟩ := List.mem_map.1 (List.mem_of_mem_filter hflaw)
      exact .inr (.inl ⟨flaw, rfl⟩)
    · obtain ⟨check, hmem, hf⟩ := List.mem_flatMap.1 hcheck
      obtain ⟨code, hid, findings, hrun, hcarries⟩ := hanswers check (hselected check hmem)
      rw [contribution_eq_filter _ hid hrun hcarries] at hf
      have hcode := (hcarries f (List.mem_of_mem_filter hf)).code_eq
      exact .inr (.inr ⟨check, hselected check hmem, hcode.trans hid.symm⟩)

/-- No registered check fails.  About every declaration and the docstring of every literal each of
them comes to an answer: warnings under its own code, none of which ends the examination.  So no
report, whatever the configuration, says that a check has failed. -/
theorem registered_never_fail (d : Declaration) :
    (∀ literal, ∀ check ∈ Check.registered, ∃ findings,
      check.run d (Docstring.ofLiteral literal).1 = .ok findings ∧
        ∀ f ∈ findings, f.code = check.id ∧ f.severity = .warning ∧ f.terminates = false) ∧
      ∀ config, ∀ f ∈ (ofConfig config).validate d, f.code ≠ ascii "GLE99" := by
  refine ⟨fun literal check hcheck => ?_, fun config f hf => ?_⟩
  · obtain ⟨code, hid, findings, hrun, hcarries⟩ :=
      Check.registered_answer_ofLiteral d literal check hcheck
    refine ⟨findings, hrun, fun f hf => ?_⟩
    have hcarry := hcarries f hf
    exact ⟨hcarry.code_eq.trans hid.symm, hcarry.warning, hcarry.continues⟩
  · show f.code ≠ Code.gle99.name
    rcases code_of_mem_validate hf with rfl | ⟨flaw, rfl⟩ | ⟨check, hcheck, hcode⟩
    · exact (by decide : Code.gl08.name ≠ Code.gle99.name)
    · exact flaw.code_ne_gle99
    · rw [hcode]
      exact Check.registered_id_ne_gle99 check hcheck

end Validator

end DocLint
