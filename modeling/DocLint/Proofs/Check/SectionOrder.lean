import DocLint.Proofs.Check.Agreement
import Mathlib.Data.List.Nodup
import Mathlib.Data.List.Zip

/-!
# The order of the sections

The rule about the order writes the allowed names that are used in their canonical order beside the
sections in the order in which they stand, and reports every place where the two differ.  If no name
is used twice, both sides hold the same names.  So the places that differ hold the same names on both
sides too, and there is never exactly one.

* `placeAmong`: where a section would stand in the canonical order.
* `perm_filter_zip`: what stands at the places where a list and a permutation of it differ.
* `expectedSections_eq`: the rule looks at the sections with allowed names only.
* `sectionOrder_reports_misplaced`: what is reported.
-/

namespace DocLint

/-! ### Canonical order -/

namespace SectionName

/-- The number of the allowed names in front of a name. -/
def rank (name : Bytes) : Nat := allowed.idxOf name

/-- How many of some names come before a name in the canonical order: its place, if these names stood
in that order. -/
def placeAmong (names : List Bytes) (name : Bytes) : Nat :=
  names.countP fun other => decide (rank other < rank name)

theorem nodup_allowed : allowed.Nodup := by decide

/-- The ranks of the allowed names ascend. -/
theorem pairwise_rank : allowed.Pairwise fun a b => rank a < rank b := by
  refine List.pairwise_iff_getElem.2 fun i j hi hj hij => ?_
  rw [rank, rank, nodup_allowed.idxOf_getElem i hi, nodup_allowed.idxOf_getElem j hj]
  exact hij

/-- In the canonical order a name stands at its place. -/
theorem placeAmong_of_getElem? {names : List Bytes} {name : Bytes} {i : Nat}
    (hsorted : names.Pairwise fun a b => rank a < rank b) (h : names[i]? = some name) :
    placeAmong names name = i := by
  obtain ⟨hi, hname⟩ := List.getElem?_eq_some_iff.1 h
  have hsplit : names = names.take i ++ name :: names.drop (i + 1) := by
    rw [← hname, List.getElem_cons_drop, List.take_append_drop]
  rw [hsplit, List.pairwise_append, List.pairwise_cons] at hsorted
  obtain ⟨-, ⟨hbehind, -⟩, hfront⟩ := hsorted
  have hbefore : (names.take i).countP (fun other => decide (rank other < rank name)) = i := by
    rw [List.countP_eq_length.2 fun other hother =>
      decide_eq_true (hfront other hother name List.mem_cons_self), List.length_take]
    exact Nat.min_eq_left (Nat.le_of_lt hi)
  have hnone : (name :: names.drop (i + 1)).countP
      (fun other => decide (rank other < rank name)) = 0 := by
    rw [List.countP_eq_zero]
    intro other hother
    rw [decide_eq_true_eq, Nat.not_lt]
    rcases List.mem_cons.1 hother with rfl | hother
    · exact Nat.le_refl _
    · exact Nat.le_of_lt (hbehind other hother)
  rw [placeAmong, hsplit, List.countP_append, hbefore, hnone, Nat.add_zero]

end SectionName

/-! ### Places that differ -/

/-- At the places where a list and a permutation of it differ, both hold the same elements. -/
theorem perm_filter_zip {α : Type} [BEq α] [LawfulBEq α] {xs ys : List α} (h : xs.Perm ys) :
    (((xs.zip ys).filter fun p => p.1 != p.2).map Prod.fst).Perm
      (((xs.zip ys).filter fun p => p.1 != p.2).map Prod.snd) := by
  have hfirst := (List.filter_append_perm (fun p => p.1 != p.2) (xs.zip ys)).map Prod.fst
  have hsecond := (List.filter_append_perm (fun p => p.1 != p.2) (xs.zip ys)).map Prod.snd
  rw [List.map_append, List.map_fst_zip (Nat.le_of_eq h.length_eq)] at hfirst
  rw [List.map_append, List.map_snd_zip (Nat.le_of_eq h.length_eq.symm)] at hsecond
  -- At all other places the elements are equal, and can be taken away.
  have hsame : ((xs.zip ys).filter fun p => !(p.1 != p.2)).map Prod.fst =
      ((xs.zip ys).filter fun p => !(p.1 != p.2)).map Prod.snd := by
    refine List.map_congr_left fun p hp => ?_
    simpa using List.of_mem_filter hp
  rw [hsame] at hfirst
  exact (List.perm_append_right_iff _).1 (hfirst.trans (h.trans hsecond.symm))

/-! ### The two sides -/

namespace Docstring

/-- The sections with allowed names, in the order in which they stand. -/
def allowedSections (doc : Docstring) : List DocSection := doc.sections.filter Check.isAllowed

/-- The names of these sections. -/
def allowedNames (doc : Docstring) : List Bytes := doc.allowedSections.map fun s => s.name.value

variable {doc : Docstring}

theorem allowedNames_subset (doc : Docstring) : doc.allowedNames ⊆ SectionName.allowed := by
  intro name hname
  obtain ⟨s, hs, rfl⟩ := List.mem_map.1 hname
  exact List.contains_iff_mem.1 (List.mem_filter.1 hs).2

/-- A docstring has a section of an allowed name if and only if one of these has it. -/
theorem hasSection_iff {name : Bytes} (h : name ∈ SectionName.allowed) :
    doc.hasSection name = doc.allowedNames.contains name := by
  rw [Bool.eq_iff_iff, hasSection, section?, List.find?_isSome, List.contains_iff_mem, allowedNames,
    List.mem_map]
  constructor
  · rintro ⟨s, hs, hname⟩
    rw [beq_iff_eq] at hname
    refine ⟨s, List.mem_filter.2 ⟨hs, ?_⟩, hname⟩
    rw [Check.isAllowed, hname]
    exact List.contains_iff_mem.2 h
  · rintro ⟨s, hs, rfl⟩
    exact ⟨s, List.mem_of_mem_filter hs, beq_self_eq_true _⟩

end Docstring

namespace Check

variable {doc : Docstring}

/-- The names that are expected are those of the sections with allowed names, in canonical order. -/
theorem expectedSections_eq (doc : Docstring) :
    expectedSections doc = SectionName.allowed.filter doc.allowedNames.contains :=
  List.filter_congr fun _ hname => Docstring.hasSection_iff hname

theorem pairwise_expectedSections (doc : Docstring) :
    (expectedSections doc).Pairwise fun a b => SectionName.rank a < SectionName.rank b :=
  SectionName.pairwise_rank.sublist List.filter_sublist

theorem mem_expectedSections_iff {name : Bytes} :
    name ∈ expectedSections doc ↔ name ∈ doc.allowedNames := by
  rw [expectedSections_eq, List.mem_filter, List.contains_iff_mem]
  exact and_iff_right_of_imp fun hname => doc.allowedNames_subset hname

section Distinct

variable (h : doc.allowedNames.Nodup)
include h

theorem perm_expectedSections : (expectedSections doc).Perm doc.allowedNames :=
  (List.perm_ext_iff_of_nodup (SectionName.nodup_allowed.filter _) h).2 fun _ =>
    mem_expectedSections_iff

theorem length_expectedSections : (expectedSections doc).length = doc.allowedSections.length := by
  rw [(perm_expectedSections h).length_eq, Docstring.allowedNames, List.length_map]

/-- An expected name stands at its place. -/
theorem placeAmong_expected {name : Bytes} {i : Nat} (hname : (expectedSections doc)[i]? = some name) :
    SectionName.placeAmong doc.allowedNames name = i := by
  rw [← SectionName.placeAmong_of_getElem? (pairwise_expectedSections doc) hname]
  exact ((perm_expectedSections h).countP_eq _).symm

/-- The names of a section and of the one that is expected at its place are equal if and only if the
section stands at its place. -/
theorem expected_eq_iff {name expected : Bytes} {i : Nat} (hname : name ∈ doc.allowedNames)
    (hexpected : (expectedSections doc)[i]? = some expected) :
    expected = name ↔ SectionName.placeAmong doc.allowedNames name = i := by
  constructor
  · rintro rfl
    exact placeAmong_expected h hexpected
  · intro hplace
    obtain ⟨j, hj⟩ := List.mem_iff_getElem?.1 (mem_expectedSections_iff.2 hname)
    rw [placeAmong_expected h hj] at hplace
    rw [hplace, hexpected] at hj
    exact Option.some.inj hj

/-- The expected names are those of the sections as they stand if and only if these stand in canonical
order. -/
theorem expectedSections_eq_iff :
    expectedSections doc = doc.allowedNames ↔ doc.allowedNames.Sublist SectionName.allowed := by
  constructor
  · intro heq
    rw [← heq]
    exact List.filter_sublist
  · intro hsublist
    have hfilter := hsublist.filter doc.allowedNames.contains
    rw [← expectedSections_eq, List.filter_eq_self.2 fun name hname =>
      List.contains_iff_mem.2 hname] at hfilter
    exact (hfilter.eq_of_length (perm_expectedSections h).length_eq.symm).symm

end Distinct

/-! ### The rule -/

/-- What is found about a section that stands where one of another name should. -/
def orderFinding (s : DocSection) (expected : Bytes) : Diagnostic :=
  Code.gl07.finding s.name.span (some (ascii "Section should be `" ++ expected ++ ascii "`."))
    [(ascii "actual", s.name.value), (ascii "expected", expected)]

/-- The sections with allowed names that differ from what is expected at their places, each with its
number among these sections and the name that is expected. -/
def misplacedSections (doc : Docstring) : List ((DocSection × Nat) × Bytes) :=
  (doc.allowedSections.zipIdx.zip (expectedSections doc)).filter fun f => f.2 != f.1.1.name.value

/-- The rule reports each of them. -/
theorem sectionOrder_eq (d : Declaration) (doc : Docstring) : sectionOrder d doc =
    .ok ((misplacedSections doc).map fun f => orderFinding f.1.1 f.2) := by
  have hreport : ∀ p : Bytes × DocSection,
      Code.gl07.report p.2.name.span (some (ascii "Section should be `" ++ p.1 ++ ascii "`."))
        [(ascii "actual", p.2.name.value), (ascii "expected", p.1)] = pure (orderFinding p.2 p.1) :=
    fun p => report_eq_ok rfl _ _
  have hzip : (expectedSections doc).zip doc.allowedSections =
      (doc.allowedSections.zipIdx.zip (expectedSections doc)).map fun f => (f.2, f.1.1) := by
    rw [← List.zip_swap, ← List.zipIdx_map_fst 0 doc.allowedSections, List.zip_map_left,
      List.map_map, List.zipIdx_map_fst]
    rfl
  unfold sectionOrder
  dsimp only
  rw [funext hreport, List.mapM_pure, ← Docstring.allowedSections, hzip, List.filter_map, List.map_map]
  rfl

/-- The names on both sides. -/
theorem map_misplacedSections (doc : Docstring) :
    (misplacedSections doc).map (fun f => (f.2, f.1.1.name.value)) =
      ((expectedSections doc).zip doc.allowedNames).filter fun p => p.1 != p.2 := by
  have hzip : (expectedSections doc).zip doc.allowedNames =
      (doc.allowedSections.zipIdx.zip (expectedSections doc)).map
        fun f => (f.2, f.1.1.name.value) := by
    rw [← List.zip_swap, Docstring.allowedNames, List.zip_map_left,
      ← List.zipIdx_map_fst 0 doc.allowedSections, List.zip_map_left, List.map_map, List.map_map,
      List.zipIdx_map_fst]
    rfl
  rw [hzip, List.filter_map]
  rfl

/-- What stands in the pairs of which the misplaced sections are some. -/
theorem getElem?_of_mem_zip {f : (DocSection × Nat) × Bytes}
    (hf : f ∈ doc.allowedSections.zipIdx.zip (expectedSections doc)) :
    f.1.1 ∈ doc.allowedSections ∧ (expectedSections doc)[f.1.2]? = some f.2 := by
  obtain ⟨i, hi⟩ := List.mem_iff_getElem?.1 hf
  obtain ⟨hfirst, hsecond⟩ := List.getElem?_zip_eq_some.1 hi
  rw [List.getElem?_zipIdx, Option.map_eq_some_iff] at hfirst
  obtain ⟨s, hs, hfirst⟩ := hfirst
  rw [← hfirst, Nat.zero_add]
  exact ⟨List.mem_of_getElem? hs, hsecond⟩

/-- The misplaced sections are those that do not stand at their places. -/
theorem map_fst_misplacedSections (h : doc.allowedNames.Nodup) :
    (misplacedSections doc).map Prod.fst = doc.allowedSections.zipIdx.filter fun p =>
      SectionName.placeAmong doc.allowedNames p.1.name.value != p.2 := by
  have hfilter : misplacedSections doc =
      (doc.allowedSections.zipIdx.zip (expectedSections doc)).filter
        ((fun p => SectionName.placeAmong doc.allowedNames p.1.name.value != p.2) ∘ Prod.fst) := by
    refine List.filter_congr fun f hf => ?_
    obtain ⟨hsection, hexpected⟩ := getElem?_of_mem_zip hf
    have hiff := expected_eq_iff h (List.mem_map_of_mem hsection) hexpected
    rw [Bool.eq_iff_iff, Function.comp_apply, bne_iff_ne, bne_iff_ne]
    exact not_congr hiff
  rw [hfilter, ← List.filter_map, List.map_fst_zip]
  rw [List.length_zipIdx, length_expectedSections h]

/-- Where no allowed name is used twice, the rule reports exactly the sections whose number among
those with allowed names is not the one that they have in canonical order, each with the name that has
this number there.  There are none if and only if these sections stand in canonical order, and never
exactly one; the names that are found and those that are expected are the same.  Other sections do not
matter. -/
theorem sectionOrder_reports_misplaced {doc : Docstring} (h : doc.allowedNames.Nodup)
    (d : Declaration) : ∃ found : List ((DocSection × Nat) × Bytes),
    sectionOrder d doc = .ok (found.map fun f => orderFinding f.1.1 f.2) ∧
    (sectionOrder d doc = silent ↔ doc.allowedNames.Sublist SectionName.allowed) ∧
    found.map Prod.fst = doc.allowedSections.zipIdx.filter (fun p =>
      SectionName.placeAmong doc.allowedNames p.1.name.value != p.2) ∧
    (∀ f ∈ found, f.2 ∈ doc.allowedNames ∧
      SectionName.placeAmong doc.allowedNames f.2 = f.1.2) ∧
    (found ≠ [] → 2 ≤ found.length) ∧
    (found.map fun f => f.1.1.name.value).Perm (found.map Prod.snd) ∧
    ∀ other : Docstring, other.allowedSections = doc.allowedSections →
      sectionOrder d other = sectionOrder d doc := by
  have hnames := map_misplacedSections doc
  have hperm := perm_expectedSections h
  have hnone : misplacedSections doc = [] ↔ doc.allowedNames.Sublist SectionName.allowed := by
    rw [← expectedSections_eq_iff h, ← filter_zip_eq_nil_iff hperm.length_eq, ← hnames,
      List.map_eq_nil_iff]
  refine ⟨misplacedSections doc, sectionOrder_eq d doc, ?_, map_fst_misplacedSections h,
    fun f hf => ?_, fun hne => ?_, ?_, fun other hother => ?_⟩
  · rw [← hnone, sectionOrder_eq, silent, Except.ok.injEq, List.map_eq_nil_iff]
  · obtain ⟨-, hexpected⟩ := getElem?_of_mem_zip (List.mem_of_mem_filter hf)
    exact ⟨mem_expectedSections_iff.1 (List.mem_of_getElem? hexpected),
      placeAmong_expected h hexpected⟩
  · have hone := length_filter_zip_ne_one hperm
    rw [← hnames, List.length_map] at hone
    have hpos := List.length_pos_iff.2 hne
    omega
  · have hsame := (perm_filter_zip hperm).symm
    rwa [← hnames, List.map_map, List.map_map] at hsame
  · have hexpected : expectedSections other = expectedSections doc := by
      rw [expectedSections_eq, expectedSections_eq, Docstring.allowedNames, hother,
        ← Docstring.allowedNames]
    rw [sectionOrder_eq, sectionOrder_eq, misplacedSections, misplacedSections, hother, hexpected]

/-- A docstring whose first two allowed sections change places, with another section between them. -/
def shuffledDoc : Docstring :=
  ⟨[], {}, {}, 0, none, [sampleSection SectionName.returns [], sampleSection (ascii "Aside") [],
    sampleSection SectionName.parameters [], sampleSection SectionName.notes []]⟩

theorem sectionOrder_reports_misplaced_shuffledDoc :
    shuffledDoc.allowedNames.Nodup ∧
    ∃ found : List ((DocSection × Nat) × Bytes),
      sectionOrder starredFunction shuffledDoc = .ok (found.map fun f => orderFinding f.1.1 f.2) ∧
      found.map (fun f => (f.1.1.name.value, f.1.2)) =
        [(SectionName.returns, 0), (SectionName.parameters, 1)] ∧
      (found.map Prod.snd).Perm [SectionName.returns, SectionName.parameters] := by
  have hnodup : shuffledDoc.allowedNames.Nodup := by decide
  obtain ⟨found, hfound, -, hmisplaced, -, -, hperm, -⟩ :=
    sectionOrder_reports_misplaced hnodup starredFunction
  have hnames := congrArg (List.map fun p : DocSection × Nat => (p.1.name.value, p.2)) hmisplaced
  rw [List.map_map] at hnames
  have hplaces : found.map (fun f => (f.1.1.name.value, f.1.2)) =
      [(SectionName.returns, 0), (SectionName.parameters, 1)] := hnames.trans (by decide)
  have hactual : found.map (fun f => f.1.1.name.value) =
      [SectionName.returns, SectionName.parameters] := by
    have hfirst := congrArg (List.map Prod.fst) hplaces
    rwa [List.map_map] at hfirst
  rw [hactual] at hperm
  exact ⟨hnodup, found, hfound, hplaces, hperm.symm⟩

end Check

end DocLint
