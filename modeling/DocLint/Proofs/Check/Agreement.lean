import DocLint.Proofs.Check.Discipline
import Mathlib.Data.List.Nodup

/-!
# Documented and declared parameters

Three rules compare the names that a docstring documents with the declared ones: all declared names
are documented, all documented names are declared, and both stand in the same order.  The last rule
counts before it compares, and yet it misses nothing where the other two are silent: lists without
duplicates that have the same members are of one length.

* `undocumentedParameters_silent_iff`, `undeclaredParameters_silent_iff`: inclusion of names.
* `exists_parameterOrder`: as many findings as places that differ.
* `names_agree_iff`: the three rules together.
-/

namespace DocLint

/-! ### Places that differ -/

/-- Lists of one length that differ nowhere are equal. -/
theorem filter_zip_eq_nil_iff {α : Type} [BEq α] [LawfulBEq α] {xs ys : List α}
    (h : xs.length = ys.length) : ((xs.zip ys).filter fun p => p.1 != p.2) = [] ↔ xs = ys := by
  induction xs generalizing ys with
  | nil => simp [List.length_eq_zero_iff.1 h.symm]
  | cons x xs ih =>
      cases ys with
      | nil => cases h
      | cons y ys =>
          have hrest := ih (Nat.succ.inj h)
          by_cases hxy : x = y
          · rw [List.zip_cons_cons, List.filter_cons_of_neg (by simpa using hxy), hrest, hxy,
              List.cons_inj_right]
          · rw [List.zip_cons_cons, List.filter_cons_of_pos (by simpa using hxy)]
            exact ⟨nofun, fun heq => absurd (List.cons.inj heq).1 hxy⟩

/-- A list and a permutation of it do not differ at exactly one place. -/
theorem length_filter_zip_ne_one {α : Type} [BEq α] [LawfulBEq α] {xs ys : List α} (h : xs.Perm ys) :
    ((xs.zip ys).filter fun p => p.1 != p.2).length ≠ 1 := by
  induction xs generalizing ys with
  | nil => simp
  | cons x xs ih =>
      cases ys with
      | nil => simp
      | cons y ys =>
          by_cases hxy : x = y
          · rw [List.zip_cons_cons, List.filter_cons_of_neg (by simpa using hxy)]
            rw [hxy] at h
            exact ih h.cons_inv
          · rw [List.zip_cons_cons, List.filter_cons_of_pos (by simpa using hxy), List.length_cons]
            intro hone
            -- The rest does not differ, so that the counts of the first element do.
            have hlength : xs.length = ys.length := Nat.succ.inj h.length_eq
            have hrest := List.length_eq_zero_iff.1 (Nat.succ.inj hone)
            obtain rfl := (filter_zip_eq_nil_iff hlength).1 hrest
            have hcount := h.count_eq x
            rw [List.count_cons_self, List.count_cons_of_ne (Ne.symm hxy)] at hcount
            omega

/-! ### Names -/

/-- The declared names. -/
def Declaration.parameterNames (d : Declaration) : List Bytes := d.parameters.map Parameter.name

namespace Docstring

/-- The names in the parameter section. -/
def parameterNames (doc : Docstring) : List Bytes :=
  (Check.documentedNames (Check.parameterEntries doc)).map Check.DocumentedName.name

/-- The names in the section for other parameters. -/
def otherNames (doc : Docstring) : List Bytes :=
  (Check.documentedNames (Check.otherEntries doc)).map Check.DocumentedName.name

end Docstring

namespace Check

/-! ### Membership -/

theorem ofParameters_eq {d : Declaration} (h : d.form.takesParameters = true)
    (result : CheckResult) : ofParameters d result = result := by
  rw [ofParameters, if_pos h]

theorem any_name_iff {documented : List DocumentedName} {name : Bytes} :
    (documented.any fun n => n.name == name) = true ↔
      name ∈ documented.map DocumentedName.name := by
  simp

theorem parameter?_isNone_iff {d : Declaration} {name : Bytes} :
    (d.parameter? name).isNone = true ↔ name ∉ d.parameterNames := by
  simp [Declaration.parameter?, Declaration.parameterNames]

section Checks

variable {d : Declaration} {doc : Docstring} (htakes : d.form.takesParameters = true)
include htakes

theorem undocumentedParameters_silent_iff : undocumentedParameters d doc = silent ↔
    d.parameterNames ⊆ doc.parameterNames ++ doc.otherNames := by
  rw [undocumentedParameters, ofParameters_eq htakes, mapM_eq_silent_iff, List.filter_eq_nil_iff,
    Docstring.parameterNames, Docstring.otherNames, ← List.map_append, Declaration.parameterNames,
    List.subset_def, List.forall_mem_map]
  simp only [Bool.not_eq_true', Bool.not_eq_false, any_name_iff]

theorem undeclaredParameters_silent_iff : undeclaredParameters d doc = silent ↔
    doc.parameterNames ++ doc.otherNames ⊆ d.parameterNames := by
  rw [undeclaredParameters, ofParameters_eq htakes, mapM_eq_silent_iff, List.filter_eq_nil_iff,
    Docstring.parameterNames, Docstring.otherNames, ← List.map_append, List.subset_def,
    List.forall_mem_map]
  simp only [parameter?_isNone_iff, not_not]

/-- The rule about the order reports each place that differs. -/
theorem exists_parameterOrder (doc : Docstring) : ∃ findings, parameterOrder d doc = .ok findings ∧
    findings.length = (disorders d doc).length := by
  obtain ⟨findings, hfindings, -⟩ := parameterOrder_answers d doc
  refine ⟨findings, hfindings, ?_⟩
  rw [parameterOrder_eq, ofParameters_eq htakes] at hfindings
  exact length_of_mapM hfindings

theorem parameterOrder_silent_iff : parameterOrder d doc = silent ↔ disorders d doc = [] := by
  rw [parameterOrder_eq, ofParameters_eq htakes, mapM_eq_silent_iff]

end Checks

/-! ### Order -/

/-- The names at the places that differ. -/
theorem map_disorder {documented : List DocumentedName} {declared : List Parameter}
    (h : documented.length = declared.length) :
    (disorder documented declared).map (Prod.map DocumentedName.name Parameter.name) =
      ((documented.map DocumentedName.name).zip (declared.map Parameter.name)).filter
        fun names => names.1 != names.2 := by
  rw [disorder, if_pos h, List.zip_map, List.filter_map]
  rfl

/-- Documented names are in order if they are the declared ones. -/
theorem disorder_eq_nil {documented : List DocumentedName} {declared : List Parameter}
    (h : documented.map DocumentedName.name = declared.map Parameter.name) :
    disorder documented declared = [] := by
  have hlength : documented.length = declared.length := by
    simpa only [List.length_map] using congrArg List.length h
  have hnone := (filter_zip_eq_nil_iff (congrArg List.length h)).2 h
  rwa [← map_disorder hlength, List.map_eq_nil_iff] at hnone

section Disorders

variable {d : Declaration} {doc : Docstring}

/-- Without other parameters all declared ones are compared with the parameter section. -/
theorem disorders_of_otherNames (hother : doc.otherNames = []) :
    disorders d doc = disorder (documentedNames (parameterEntries doc)) d.parameters := by
  rw [Docstring.otherNames, List.map_eq_nil_iff] at hother
  rw [disorders, hother]

/-- What is documented in two sections, in the order of the declaration, is in order in both. -/
theorem disorders_eq_nil (hdeclared : d.parameterNames.Nodup)
    (h : doc.parameterNames ++ doc.otherNames = d.parameterNames) : disorders d doc = [] := by
  unfold disorders
  dsimp only
  split
  next hother =>
    refine disorder_eq_nil ?_
    rw [Docstring.otherNames, hother, List.map_nil, List.append_nil] at h
    exact h
  next first rest hother =>
    -- The first of the other names is not among the names in front of it.
    have hnames : d.parameterNames =
        doc.parameterNames ++ first.name :: rest.map DocumentedName.name := by
      rw [← h, Docstring.otherNames, hother]
      rfl
    have hfirst : ∀ name ∈ doc.parameterNames, (name != first.name) = true := by
      intro name hname
      rw [hnames, List.nodup_append] at hdeclared
      simpa using hdeclared.2.2 name hname first.name List.mem_cons_self
    have hbefore : (d.parameters.takeWhile fun p => p.name != first.name).map Parameter.name =
        doc.parameterNames := by
      rw [← Function.comp_def (· != first.name) Parameter.name, ← List.takeWhile_map,
        ← Declaration.parameterNames, hnames, List.takeWhile_append_of_pos hfirst,
        List.takeWhile_cons_of_neg (by simp), List.append_nil]
    have hindex := congrArg List.length hbefore
    rw [List.length_map] at hindex
    have hfront : (d.parameters.take doc.parameterNames.length).map Parameter.name =
        doc.parameterNames := by
      rw [List.map_take, ← Declaration.parameterNames, ← h, List.take_left]
    have hback : (d.parameters.drop doc.parameterNames.length).map Parameter.name =
        doc.otherNames := by
      rw [List.map_drop, ← Declaration.parameterNames, ← h, List.drop_left]
    rw [hindex, disorder_eq_nil hfront.symm, disorder_eq_nil hback.symm]
    rfl

end Disorders

/-- The three rules about names are silent if and only if the documented names are the declared ones
in their order, provided that no name is documented twice and no other parameters are; one parameter
alone is never out of order.  With other parameters the names of both sections together may be the
declared ones. -/
theorem names_agree_iff {d : Declaration} {doc : Docstring}
    (htakes : d.form.takesParameters = true) (hdeclared : d.parameterNames.Nodup) :
    (doc.parameterNames.Nodup → doc.otherNames = [] →
      ((undocumentedParameters d doc = silent ∧ undeclaredParameters d doc = silent ∧
          parameterOrder d doc = silent) ↔ doc.parameterNames = d.parameterNames) ∧
        (undocumentedParameters d doc = silent → undeclaredParameters d doc = silent →
          ∃ findings, parameterOrder d doc = .ok findings ∧ findings.length ≠ 1)) ∧
      (doc.parameterNames ++ doc.otherNames = d.parameterNames →
        undocumentedParameters d doc = silent ∧ undeclaredParameters d doc = silent ∧
          parameterOrder d doc = silent) := by
  have hagree (h : doc.parameterNames ++ doc.otherNames = d.parameterNames) :
      undocumentedParameters d doc = silent ∧ undeclaredParameters d doc = silent ∧
        parameterOrder d doc = silent := by
    refine ⟨?_, ?_, ?_⟩
    · rw [undocumentedParameters_silent_iff htakes, h]
      exact List.Subset.refl _
    · rw [undeclaredParameters_silent_iff htakes, h]
      exact List.Subset.refl _
    · rw [parameterOrder_silent_iff htakes]
      exact disorders_eq_nil hdeclared h
  refine ⟨fun hdocumented hother => ?_, hagree⟩
  -- Where nothing is missing on either side the names are the same but for their order.
  have hperm (hmissing : undocumentedParameters d doc = silent)
      (hunknown : undeclaredParameters d doc = silent) :
      doc.parameterNames.Perm d.parameterNames := by
    rw [undocumentedParameters_silent_iff htakes, hother, List.append_nil] at hmissing
    rw [undeclaredParameters_silent_iff htakes, hother, List.append_nil] at hunknown
    exact (List.perm_ext_iff_of_nodup hdocumented hdeclared).2 fun name =>
      ⟨fun hname => hunknown hname, fun hname => hmissing hname⟩
  have hlength (h : doc.parameterNames.Perm d.parameterNames) :
      (documentedNames (parameterEntries doc)).length = d.parameters.length := by
    simpa only [Docstring.parameterNames, Declaration.parameterNames, List.length_map] using
      h.length_eq
  refine ⟨⟨fun hsilent => ?_, fun h => hagree (by rw [hother, List.append_nil, h])⟩, ?_⟩
  · obtain ⟨hmissing, hunknown, horder⟩ := hsilent
    have hsame := hperm hmissing hunknown
    rw [parameterOrder_silent_iff htakes, disorders_of_otherNames hother] at horder
    have hzip := map_disorder (hlength hsame)
    rw [horder, List.map_nil] at hzip
    exact (filter_zip_eq_nil_iff hsame.length_eq).1 hzip.symm
  · intro hmissing hunknown
    have hsame := hperm hmissing hunknown
    obtain ⟨findings, hfindings, hcount⟩ := exists_parameterOrder htakes doc
    refine ⟨findings, hfindings, ?_⟩
    have hzip := congrArg List.length (map_disorder (hlength hsame))
    rw [List.length_map] at hzip
    rw [hcount, disorders_of_otherNames hother, hzip]
    exact length_filter_zip_ne_one hsame

/-- The function `f(x, y, *args)`. -/
def starredFunction : Declaration where
  form := .functionDecl ⟨ascii "f", {}⟩
    [⟨ascii "x", {}, .positional, none, none⟩, ⟨ascii "y", {}, .positional, none, none⟩,
      ⟨ascii "args", {}, .varArgs, none, none⟩] {}
  span := {}

/-- A section of entries without types, whose headers are given. -/
def sampleSection (title : Bytes) (headers : List Bytes) : DocSection where
  name := ⟨title, {}⟩
  validUnderline := true
  contents := .parameters (headers.map fun text => { header := ⟨{}, text⟩, name := some ⟨text, {}⟩ })
  span := {}

/-- A docstring that documents two names in one entry and one in another section. -/
def partedDoc : Docstring :=
  ⟨[], {}, {}, 0, none, [sampleSection SectionName.parameters [ascii "x, y"],
    sampleSection SectionName.otherParameters [ascii "*args"]]⟩

/-- A docstring that documents two names out of order. -/
def swappedDoc : Docstring :=
  ⟨[], {}, {}, 0, none, [sampleSection SectionName.parameters [ascii "y, x", ascii "*args"]]⟩

theorem names_agree_starredFunction :
    (starredFunction.form.takesParameters = true ∧ starredFunction.parameterNames.Nodup ∧
      swappedDoc.parameterNames.Nodup ∧ swappedDoc.otherNames = [] ∧
      undocumentedParameters starredFunction swappedDoc = silent ∧
      undeclaredParameters starredFunction swappedDoc = silent ∧
      partedDoc.parameterNames ++ partedDoc.otherNames = starredFunction.parameterNames) ∧
    (∃ findings, parameterOrder starredFunction swappedDoc = .ok findings ∧ findings.length ≠ 1) ∧
    parameterOrder starredFunction swappedDoc ≠ silent ∧
    parameterOrder starredFunction partedDoc = silent := by
  have htakes : starredFunction.form.takesParameters = true := rfl
  have hdeclared : starredFunction.parameterNames.Nodup := by decide
  have hswapped : swappedDoc.parameterNames.Nodup := by decide
  have hother : swappedDoc.otherNames = [] := by decide
  have hmissing : undocumentedParameters starredFunction swappedDoc = silent := by decide
  have hunknown : undeclaredParameters starredFunction swappedDoc = silent := by decide
  have hparted : partedDoc.parameterNames ++ partedDoc.otherNames =
      starredFunction.parameterNames := by decide
  obtain ⟨hiff, horder⟩ := (names_agree_iff htakes hdeclared).1 hswapped hother
  refine ⟨⟨htakes, hdeclared, hswapped, hother, hmissing, hunknown, hparted⟩, ?_, ?_, ?_⟩
  · exact horder hmissing hunknown
  · intro hsilent
    have hne : swappedDoc.parameterNames ≠ starredFunction.parameterNames := by decide
    exact hne (hiff.1 ⟨hmissing, hunknown, hsilent⟩)
  · exact ((names_agree_iff htakes hdeclared).2 hparted).2.2

end Check

end DocLint
