import DocLint.Proofs.Check.Extents
import DocLint.Proofs.Check.Slices

/-!
# What the rules cover

Rule by rule, the findings about a placed declaration and a placed docstring are placed.  A rule
takes its spans from the lines of the docstring, from the names and types in its sections, or from
the declaration.

* `doubleBlank_places`, `extendedMissing_places`: the two exceptions.
* `registered_place`: all rules.
-/

namespace DocLint

open Bytes

namespace Check

variable {source : Bytes} (hsize : source.length < 2 ^ 31) {d : Declaration}
  (hd : d.IsPlaced source) {doc : Docstring} (hdoc : doc.IsPlaced source)

/-! ### The layout -/

section Layout

include hsize hdoc

theorem openingLine_places : Places source (openingLine d doc) := by
  unfold openingLine
  dsimp only
  split
  · exact places_silent
  next first rest hfirst =>
    have hline : first ∈ doc.lines := List.mem_of_mem_drop (hfirst ▸ List.mem_cons_self)
    split
    · exact places_silent
    · exact places_one (report_isPlaced (isIn_column hsize hdoc
        (Docstring.mem_pieces_of_mem_lines hline) (Nat.le_refl _) (leading_le _)) _ _)

theorem closingLine_places : Places source (closingLine d doc) := by
  unfold closingLine
  dsimp only
  split
  · exact places_silent
  next last hlast =>
    have hline : last ∈ doc.lines := List.mem_of_getLast? hlast
    split
    · exact places_silent
    · exact places_one (report_isPlaced (isIn_column hsize hdoc
        (Docstring.mem_pieces_of_mem_lines hline) (Nat.le_refl _) (Nat.le_refl _)) _ _)

/-- The exception: the findings begin at the indentation of the docstring, which may be right of a
blank line. -/
theorem doubleBlank_places : Places source (doubleBlank d doc) := by
  unfold doubleBlank
  refine places_mapM fun (a, b) hab e he => ?_
  obtain ⟨ha, hb, hline⟩ := lt_of_mem_zip_tail
    (hdoc.descending.sublist (List.dropLast_sublist _)) (List.mem_of_mem_filter hab)
  have hplace {line : DocLine} (hline : line ∈ doc.lines.dropLast) :=
    ((hdoc.pieces line (Docstring.mem_pieces_of_mem_lines (List.dropLast_subset _ hline))).isPlaceOf
      hsize).column_le
  obtain ⟨hfirst, -, hcolumn, -⟩ := hplace ha
  obtain ⟨-, hlast, -⟩ := hplace hb
  have hlineAnchor : 1 ≤ (doc.lineAnchor a).column.toNat := by
    show 1 ≤ (max a.position.column (doc.indent + 1)).toNat
    rw [UInt32.toNat_max]
    omega
  rw [report_eq_finding he]
  exact ⟨Position.compare_ne_gt_iff.2 (.inl hline), hfirst, hlast, hlineAnchor,
    fun hcode => absurd rfl hcode, fun hcode => absurd rfl hcode⟩

theorem tabs_places : Places source (tabs d doc) := by
  refine places_mapM fun span hspan => ?_
  obtain ⟨line, hline, htab⟩ := List.mem_filterMap.1 hspan
  unfold tabSpan? at htab
  dsimp only at htab
  split at htab
  next hmem =>
    cases htab
    have hlt := length_takeWhile_add_lt hmem
    have hle := (List.takeWhile_prefix isSpace (l := line.text)).length_le
    exact report_isPlaced (isIn_column hsize hdoc (Docstring.mem_pieces_of_mem_lines hline)
      (by omega) (by omega)) _ _
  · cases htab

omit hsize in
theorem unknownSection_places : Places source (unknownSection d doc) :=
  places_mapM fun _ hs =>
    report_isPlaced (isIn_name hdoc (List.mem_of_mem_filter hs)) _ _

omit hsize in
theorem sectionOrder_places : Places source (sectionOrder d doc) := by
  refine places_mapM fun (name, s) hs => ?_
  have hactual := (List.of_mem_zip (List.mem_of_mem_filter hs)).2
  exact report_isPlaced (isIn_name hdoc (List.mem_of_mem_filter hactual)) _ _

theorem isIn_deprecations {lines : List DocLine} (hlines : ∀ line ∈ lines, line ∈ doc.pieces) :
    ∀ span ∈ deprecations lines, span.IsIn source := by
  intro span hspan
  obtain ⟨line, hline, hfound⟩ := List.mem_filterMap.1 hspan
  obtain ⟨k, hk, rfl⟩ := Option.map_eq_some_iff.1 hfound
  exact isIn_occurrence hsize hdoc (hlines line hline) (occursAt_of_offsetOf? hk)

theorem isIn_summaryDeprecations {s : DocSummary} (hs : doc.summary = some s) :
    ∀ span ∈ summaryDeprecations s, span.IsIn source := by
  have hpieces {line : DocLine} (hline : line ∈ s.summary ++ s.extended.getD []) :=
    Docstring.mem_pieces_of_mem_summary hs hline
  intro span hspan
  rcases List.mem_append.1 hspan with hspan | hspan
  · exact isIn_deprecations hsize hdoc (fun l hl => hpieces (List.mem_append_left _ hl)) span hspan
  · exact isIn_deprecations hsize hdoc (fun l hl => hpieces (List.mem_append_right _ hl)) span hspan

theorem deprecationPlace_places : Places source (deprecationPlace d doc) := by
  unfold deprecationPlace
  split
  · exact places_silent
  next s hs =>
    split
    · exact places_silent
    next span hspan =>
      split
      · exact places_silent
      · exact places_one (report_isPlaced
          (isIn_summaryDeprecations hsize hdoc hs span (List.mem_of_mem_head? hspan)) _ _)

theorem directiveColons_places : Places source (directiveColons d doc) := by
  rw [directiveColons_eq]
  refine places_mapM fun (line, k, name) hfound => ?_
  obtain ⟨l, hl, hdirective⟩ := List.mem_filterMap.1 hfound
  obtain ⟨found, hbare, heq⟩ := Option.map_eq_some_iff.1 hdirective
  cases heq
  obtain ⟨rfl, hlength⟩ := bareDirective?_length hbare
  exact report_isPlaced
    (isIn_leading hsize hdoc (Docstring.mem_pieces_of_mem_lines hl) hlength) _ _

theorem repeatedDeprecation_places : Places source (repeatedDeprecation d doc) := by
  unfold repeatedDeprecation
  split
  · exact places_silent
  next s hs =>
    split
    · exact places_silent
    · exact places_mapM fun span hspan => report_isPlaced
        (isIn_summaryDeprecations hsize hdoc hs span (List.mem_of_mem_filter hspan)) _ _

end Layout

/-! ### The summary -/

section Summary

include hsize hdoc

omit hsize in
theorem summaryMissing_places : Places source (summaryMissing d doc) := by
  unfold summaryMissing
  dsimp only
  split
  · refine places_one (report_isPlaced ?_ _ _)
    split
    · exact Span.isIn_point hdoc.start
    next line rest hlines => exact hdoc.opening line (hlines ▸ rfl)
  · exact places_silent

theorem summaryCapital_places : Places source (summaryCapital d doc) := by
  unfold summaryCapital
  split
  · exact places_silent
  next first rest hlines =>
    have hline := mem_pieces_of_mem_summaryLines (hlines ▸ List.mem_cons_self)
    split
    · exact fun findings h => by cases h
    next c text htext =>
      split
      · exact places_one (report_isPlaced (isIn_leading hsize hdoc hline (by simp [htext])) _ _)
      · exact places_silent

theorem summaryPeriod_places : Places source (summaryPeriod d doc) := by
  unfold summaryPeriod
  split
  · exact places_silent
  next last hlast =>
    have hline := mem_pieces_of_mem_summaryLines (List.mem_of_getLast? hlast)
    dsimp only
    split
    · exact places_silent
    · exact places_one (report_isPlaced (isIn_column hsize hdoc hline (leading_le _)
        (stripEnd_isPrefix last.text).length_le) _ _)

theorem summaryIndent_places : Places source (summaryIndent d doc) := by
  unfold summaryIndent
  split
  · exact places_silent
  next first rest hlines =>
    have hline := mem_pieces_of_mem_summaryLines (hlines ▸ List.mem_cons_self)
    have hleading : first.leading ≤ first.text.length := leading_le first.text
    dsimp only
    split
    · exact places_error
    · split
      · exact places_silent
      · split
        next hdeep =>
          exact places_one
            (report_isPlaced (isIn_column hsize hdoc hline (Nat.le_of_lt hdeep) hleading) _ _)
        · exact places_one
            (report_isPlaced (isIn_column hsize hdoc hline (Nat.le_refl _) hleading) _ _)

theorem summaryVerb_places : Places source (summaryVerb d doc) := by
  rw [summaryVerb_eq]
  split
  · exact places_silent
  next first rest hlines =>
    have hline := mem_pieces_of_mem_summaryLines (hlines ▸ List.mem_cons_self)
    dsimp only
    split
    · exact places_one (report_isPlaced
        (isIn_leading hsize hdoc hline (List.takeWhile_prefix _).length_le) _ _)
    · exact places_silent

/-- The first and the last of several lines. -/
theorem summaryLength_places : Places source (summaryLength d doc) := by
  unfold summaryLength
  split
  next first last hfirst hlast =>
    split
    · exact places_silent
    next hlength =>
      have hpairwise : (summaryLines doc).Pairwise
          fun a b => a.position.line.toNat < b.position.line.toNat := by
        unfold summaryLines
        split
        · exact .nil
        next s hs => exact hdoc.descending.sublist (hdoc.summary s hs).sublist
      have hpiece {line : DocLine} (h : line ∈ summaryLines doc) :=
        mem_pieces_of_mem_summaryLines h
      have hmemFirst := hpiece (List.mem_of_mem_head? hfirst)
      have hmemLast := hpiece (List.mem_of_getLast? hlast)
      refine places_one (report_isPlaced (isIn_lines hsize hdoc hmemFirst hmemLast ?_
        (leading_le _) (Nat.le_refl _)) _ _)
      -- There is a line behind the first, and the last one is among those.
      match hlines : summaryLines doc with
      | [] => simp [hlines] at hlength
      | [_] => simp [hlines] at hlength
      | a :: b :: rest =>
          rw [hlines] at hfirst hlast hpairwise
          cases hfirst
          rw [List.getLast?_cons_cons] at hlast
          exact (List.pairwise_cons.1 hpairwise).1 last (List.mem_of_getLast? hlast)
  · exact places_silent

/-- The exception: the three columns may be more than the line has. -/
theorem extendedMissing_places : Places source (extendedMissing d doc) := by
  unfold extendedMissing
  split
  · exact places_silent
  · split
    · exact places_silent
    · refine places_one fun e he => ?_
      obtain ⟨hfirst, hlast, hcolumn, line, hline, hfits⟩ := hdoc.start.column_le
      have hlength := length_le_of_mem_lines (List.mem_of_getElem? hline)
      rw [report_eq_finding he]
      refine ⟨Position.compare_ne_gt_iff.2 (.inr ⟨rfl, ?_⟩), hfirst, hlast, hcolumn,
        fun _ => ⟨line, hline, hfits⟩, fun _ hcode => absurd rfl hcode⟩
      show doc.start.column.toNat ≤ (doc.start.column + UInt32.ofNat 3).toNat
      rw [UInt32.toNat_add, UInt32.toNat_ofNat']
      omega

omit hsize in
include hd in
theorem examplesMissing_places : Places source (examplesMissing d doc) := by
  unfold examplesMissing
  dsimp only
  split
  · exact places_silent
  · refine places_one (report_isPlaced ?_ _ _)
    split
    next name hname =>
      have hanchor := hd.anchor
      rwa [Declaration.anchor, hname] at hanchor
    · exact Span.isIn_point hdoc.start

end Summary

/-! ### The parameters -/

section Parameters

include hdoc

theorem isIn_documentedNames {name : Bytes} :
    ∀ n ∈ documentedNames (doc.entries name), n.entry.span.IsIn source := by
  intro n hn
  obtain ⟨entry, hentry, hn⟩ := List.mem_flatMap.1 hn
  split at hn
  · cases hn
  next found hname =>
    obtain ⟨part, -, rfl⟩ := List.mem_map.1 hn
    refine hdoc.fragments found ((Docstring.mem_of_mem_entries hentry).2 found ?_)
    simp [ParameterEntry.fragments, hname]

theorem isIn_type {name : Bytes} {entry : ParameterEntry} (hentry : entry ∈ doc.entries name)
    {type : Fragment} (htype : type ∈ entry.types.getD []) : type.span.IsIn source :=
  hdoc.fragments type
    ((Docstring.mem_of_mem_entries hentry).2 type (List.mem_append_right _ htype))

omit hdoc in
include hd in
theorem undocumentedParameters_places : Places source (undocumentedParameters d doc) :=
  places_ofParameters (places_mapM fun p hp =>
    report_isPlaced (hd.parameters p (List.mem_of_mem_filter hp)) _ _)

theorem undeclaredParameters_places : Places source (undeclaredParameters d doc) := by
  refine places_ofParameters (places_mapM fun n hn => report_isPlaced ?_ _ _)
  rcases List.mem_append.1 (List.mem_of_mem_filter hn) with hn | hn
  · exact isIn_documentedNames hdoc n hn
  · exact isIn_documentedNames hdoc n hn

omit hdoc in
theorem mem_of_mem_disorder {documented : List DocumentedName} {declared : List Parameter}
    {n : DocumentedName} {p : Parameter} (h : (n, p) ∈ disorder documented declared) :
    n ∈ documented := by
  unfold disorder at h
  split at h
  · exact (List.of_mem_zip (List.mem_of_mem_filter h)).1
  · cases h

theorem parameterOrder_places : Places source (parameterOrder d doc) := by
  rw [parameterOrder_eq]
  refine places_ofParameters (places_mapM fun (n, p) hn => report_isPlaced ?_ _ _)
  unfold disorders at hn
  dsimp only at hn
  split at hn
  · exact isIn_documentedNames hdoc n (mem_of_mem_disorder hn)
  · rcases List.mem_append.1 hn with hn | hn
    · exact isIn_documentedNames hdoc n (mem_of_mem_disorder hn)
    · exact isIn_documentedNames hdoc n (mem_of_mem_disorder hn)

theorem typeMissing_places : Places source (typeMissing d doc) := by
  refine places_ofParameters (places_mapM fun found hfound => report_isPlaced ?_ _ _)
  obtain ⟨entry, hentry, hname⟩ := List.mem_filterMap.1 hfound
  obtain ⟨name, hentry⟩ := mem_entries_of_mem hentry
  refine hdoc.fragments found ((Docstring.mem_of_mem_entries hentry).2 found ?_)
  split at hname
  · cases hname
  · simp [ParameterEntry.fragments, hname]

theorem typePeriod_places : Places source (typePeriod d doc) := by
  refine places_ofParameters (places_mapM fun (entry, type) hfound => report_isPlaced ?_ _ _)
  obtain ⟨found, hentry, hlast⟩ := List.mem_filterMap.1 hfound
  obtain ⟨name, hentry⟩ := mem_entries_of_mem hentry
  obtain ⟨last, hlast, hended⟩ := Option.bind_eq_some_iff.1 hlast
  split at hended
  · cases hended
    exact Span.isIn_point (isIn_type hdoc hentry (List.mem_of_getLast? hlast)).stop
  · cases hended

theorem typeNames_places : Places source (typeNames d doc) := by
  refine places_ofParameters (places_mapM fun (entry, type, correct) hfound =>
    report_isPlaced ?_ _ _)
  obtain ⟨found, hentry, hwrong⟩ := List.mem_flatMap.1 hfound
  obtain ⟨listed, hlisted, hcorrect⟩ := List.mem_filterMap.1 hwrong
  obtain ⟨_, -, heq⟩ := Option.map_eq_some_iff.1 hcorrect
  cases heq
  exact isIn_type hdoc hentry hlisted

theorem emptyChoices_places : Places source (emptyChoices d doc) := by
  rw [emptyChoices_eq]
  refine places_ofParameters (places_mapM fun (entry, type) hfound => report_isPlaced ?_ _ _)
  obtain ⟨found, hentry, hempty⟩ := List.mem_flatMap.1 hfound
  obtain ⟨listed, hlisted, heq⟩ := List.mem_map.1 hempty
  cases heq
  exact isIn_type hdoc hentry (List.mem_of_mem_filter hlisted)

include hsize

/-- The rules about descriptions differ in their code, their predicate and their suggestion. -/
theorem descriptions_places {code : Code} {field : String} {p : Paragraph → Bool}
    {suggestion : String} {name : Bytes} :
    Places source (descriptions code field p suggestion (doc.entries name)) :=
  places_mapM fun _ hentry =>
    report_isPlaced (isIn_anchor hsize hdoc (List.mem_of_mem_filter hentry)) _ _

theorem colonSpacing_places : Places source (colonSpacing d doc) := by
  refine places_ofParameters (places_mapM fun (entry, start, stop) hfound =>
    report_isPlaced ?_ _ _)
  obtain ⟨found, hentry, htight⟩ := List.mem_flatMap.1 hfound
  obtain ⟨place, hplace, heq⟩ := List.mem_map.1 htight
  cases heq
  exact isIn_column hsize hdoc ((Docstring.mem_of_mem_entries hentry).1 _ List.mem_cons_self)
    (Nat.le_of_lt (mem_tightColons_lt hplace)) (mem_tightColons_le hplace)

theorem blankAboveDescription_places : Places source (blankAboveDescription d doc) :=
  places_ofParameters (places_mapM fun _ hentry =>
    report_isPlaced (isIn_anchor hsize hdoc (List.mem_of_mem_filter hentry)) _ _)

theorem blankBelowDescription_places : Places source (blankBelowDescription d doc) :=
  places_ofParameters (places_mapM fun _ hentry => report_isPlaced
    (isIn_anchor hsize hdoc (List.dropLast_subset _ (List.mem_of_mem_filter hentry))) _ _)

theorem repeatedOptional_places : Places source (repeatedOptional d doc) :=
  places_ofParameters (places_mapM fun _ hentry =>
    report_isPlaced (isIn_anchor hsize hdoc (List.mem_of_mem_filter hentry)) _ _)

end Parameters

/-! ### The results -/

section Results

include hd in
theorem returnsMissing_places : Places source (returnsMissing d doc) := by
  unfold returnsMissing
  split
  · exact places_silent
  · exact places_one (report_isPlaced (Span.isIn_point hd.anchor.stop) _ _)

include hdoc in
theorem namedReturn_places : Places source (namedReturn d doc) := by
  apply places_ofCallable
  split
  next entry hentries =>
    split
    · exact places_silent
    next found hname =>
      have hentry : entry ∈ doc.entries SectionName.returns :=
        show entry ∈ returnEntries doc from hentries ▸ List.mem_singleton_self entry
      refine places_one (report_isPlaced (hdoc.fragments found
        ((Docstring.mem_of_mem_entries hentry).2 found ?_)) _ _)
      simp [ParameterEntry.fragments, hname]
  · exact places_silent

include hd in
theorem yieldsMissing_places : Places source (yieldsMissing d doc) := by
  unfold yieldsMissing
  split
  · exact places_silent
  · exact places_one (report_isPlaced hd.anchor _ _)

end Results

/-! ### All of them -/

include hsize hd hdoc

/-- Every registered check covers spans of the source text. -/
theorem registered_place : ∀ check ∈ registered, Places source (check.run d doc) := by
  have hdescriptions {code : Code} {field : String} {p : Paragraph → Bool} {suggestion : String}
      {name : Bytes} :
      Places source (descriptions code field p suggestion (doc.entries name)) :=
    descriptions_places hsize hdoc
  simp only [registered, List.forall_mem_cons, ofCode]
  exact ⟨openingLine_places hsize hdoc, closingLine_places hsize hdoc,
    doubleBlank_places hsize hdoc, tabs_places hsize hdoc, unknownSection_places hdoc,
    sectionOrder_places hdoc, deprecationPlace_places hsize hdoc,
    directiveColons_places hsize hdoc, repeatedDeprecation_places hsize hdoc,
    summaryMissing_places hdoc, summaryCapital_places hsize hdoc, summaryPeriod_places hsize hdoc,
    summaryIndent_places hsize hdoc, summaryVerb_places hsize hdoc,
    summaryLength_places hsize hdoc, extendedMissing_places hsize hdoc,
    examplesMissing_places hd hdoc, undocumentedParameters_places hd,
    undeclaredParameters_places hdoc, parameterOrder_places hdoc, typeMissing_places hdoc,
    typePeriod_places hdoc, typeNames_places hdoc, places_ofParameters hdescriptions,
    places_ofParameters hdescriptions, places_ofParameters hdescriptions,
    colonSpacing_places hsize hdoc, blankAboveDescription_places hsize hdoc,
    blankBelowDescription_places hsize hdoc, repeatedOptional_places hsize hdoc,
    emptyChoices_places hdoc, returnsMissing_places hd, namedReturn_places hdoc,
    places_ofCallable hdescriptions, places_ofCallable hdescriptions,
    places_ofCallable hdescriptions, yieldsMissing_places hd, by simp⟩

end Check

end DocLint
