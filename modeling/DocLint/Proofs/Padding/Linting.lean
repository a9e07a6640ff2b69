import DocLint.Proofs.Check.Retold
import DocLint.Proofs.Docstring.Literal
import DocLint.Proofs.Padding.Docstring

/-!
# Padding and linting

Spaces and carriage returns behind the lines of a docstring change nothing of what is said about
it, with one exception: behind a summary line of one word, they are taken for more text, so that the
word counts as a verb.

* `unpadding`, `lawful_unpadding`: a docstring told again without padding.
* `summaryVerb_retold_unpadding`: the rule about the first word does not see the padding either,
  unless the word stands alone.
* `summaryVerb_eq_silent_iff`: what it makes of a word that stands alone.
* `verdicts_padded`: what is said about a padded literal is what is said without the padding.
-/

namespace DocLint

open Bytes

/-! ### Without padding -/

/-- What becomes of a docstring without padding: everything stays in its place. -/
def unpadding : Retelling where
  onLine := DocLine.unpadded
  margin := fun _ => 0
  onDescription := DocLine.unpadded
  onEntry := ParameterEntry.bare
  onSection := DocSection.bare
  onPosition := fun p => p

/-- Rules find the same without padding; places at the ends of lines do not correspond. -/
theorem lawful_unpadding : unpadding.Lawful fun _ _ => True where
  position := fun _ => trivial
  right := fun _ _ _ _ => trivial
  column := fun _ _ => trivial
  stop := fun _ => trivial
  content := DocLine.keepsContent_unpadded
  leading := fun line hline => (DocLine.leading_unpadded hline).trans (Nat.zero_add _).symm
  tabs := fun line => by
    rw [show unpadding.onSpan = id from rfl, Option.map_id_fun]
    exact (Check.ignoresPadding_tabSpan? line.position).unpad_eq line.text
  deprecations := fun lines => by
    rw [show unpadding.onSpan = id from rfl, List.map_id, Check.deprecations, List.filterMap_map]
    refine List.filterMap_congr fun line _ => ?_
    exact congrArg _ ((ignoresPadding_offsetOf? (by decide) (by decide)).unpad_eq line.text)
  directive := fun line => by
    simp only [unpadding, Nat.zero_add, Option.map_id']
    exact Check.ignoresPadding_bareDirective?.unpad_eq line.text
  sectionName := fun _ => rfl
  parameters := fun s => by
    unfold DocSection.parameters
    cases hcontents : s.contents with
    | parameters entries => simp [unpadding, DocSection.bare, hcontents, SectionContents.bare]
    | seeAlso entries => simp [unpadding, DocSection.bare, hcontents, SectionContents.bare]
    | text lines => simp [unpadding, DocSection.bare, hcontents, SectionContents.bare]
  entryName := fun entry => by
    rw [show unpadding.onFragment = id from rfl, Option.map_id_fun]
    rfl
  entryTypes := fun entry => by
    simp only [show unpadding.onFragment = id from rfl, List.map_id_fun, id_eq, Option.map_id']
    rfl
  optionalCount := fun _ => rfl
  description := fun _ => rfl
  descriptions := DocLine.keepsDescriptions_unpadded
  header := fun _ => ⟨trivial, trivial⟩
  tightColons := fun entry => by
    refine List.forall₂_iff_get.2 ⟨?_, fun _ _ _ => ⟨trivial, trivial⟩⟩
    exact (Check.length_tightColons_padding.unpad_eq entry.header.text).symm

/-- The docstring of a literal, told again without padding. -/
theorem Docstring.retold_bare (literal : DocLiteral) :
    (ofLiteral literal).1.Retold unpadding (fun _ _ => True) (ofLiteral literal).1.bare where
  lawful := lawful_unpadding
  lines_eq := rfl
  summary_eq := rfl
  sections_eq := rfl
  start := trivial
  opening := fun _ _ => trivial
  lineAnchor := fun _ _ => trivial
  expectedIndent := fun line _ => by
    have hindex : Check.lineIndex (ofLiteral literal).1.bare (unpadding.onLine line) =
        Check.lineIndex (ofLiteral literal).1 line := by
      unfold Check.lineIndex
      rw [bare]
      cases (ofLiteral literal).1.lines with
      | nil => rfl
      | cons first rest => rfl
    rw [hindex]
    exact (Nat.zero_add _).symm
  summary_mem := summaryLines_ofLiteral_mem literal
  summary_readable := summaryLines_ofLiteral_not_blank literal
  deprecationLine := fun s _ span _ => by
    have hline : Check.deprecationLine (s.map unpadding.onLine) = Check.deprecationLine s := by
      have hlines : (s.map unpadding.onLine).extended.getD (s.map unpadding.onLine).summary =
          (s.extended.getD s.summary).map unpadding.onLine := by
        rw [DocSummary.map]
        cases s.extended with
        | none => rfl
        | some p => rfl
      unfold Check.deprecationLine
      rw [hlines, List.head?_map]
      cases (s.extended.getD s.summary).head? with
      | none => rfl
      | some line => rfl
    rw [hline]
    rfl

namespace Check

/-- The summary of a function or method begins with a line of one word, which ends in `s`. -/
def LoneVerb (d : Declaration) (doc : Docstring) : Prop :=
  d.form.isCallable = true ∧ ∃ first ∈ (summaryLines doc).head?,
    (∀ c ∈ strip first.text, isSpace c = false) ∧ endsWith (strip first.text) (ascii "s") = true

instance (d : Declaration) (doc : Docstring) : Decidable (LoneVerb d doc) :=
  decidable_of_iff (d.form.isCallable = true ∧ ((summaryLines doc).head?.any fun first =>
      (strip first.text).all (fun c => !isSpace c) && endsWith (strip first.text) (ascii "s")) = true)
    (by simp only [LoneVerb, Option.any_eq_true, Option.mem_def, Bool.and_eq_true,
      List.all_eq_true, Bool.not_eq_true'])

/-- A word that stands alone is taken for a verb where whitespace stands behind it. -/
theorem summaryVerb_eq_silent_iff {d : Declaration} {doc : Docstring} (h : LoneVerb d doc) :
    summaryVerb d doc = silent ↔
      ∀ first ∈ (summaryLines doc).head?, stripStart first.text = strip first.text := by
  obtain ⟨hcallable, first, hfirst, hword, hverb⟩ := h
  obtain ⟨rest, hsummary⟩ := List.head?_eq_some_iff.1 hfirst
  obtain ⟨v, -, hsplit⟩ := exists_eq_strip_append first.text
  have halone : stripStart first.text = strip first.text ↔
      ¬ (strip first.text).length < (stripStart first.text).length := by
    rw [hsplit, List.length_append, List.append_right_eq_self, ← List.length_eq_zero_iff]
    omega
  rw [summaryVerb_eq, hsummary]
  simp only [takeWhile_stripStart_of_word hword, hcallable, hverb, Bool.true_and, Bool.and_true,
    decide_eq_true_eq, List.head?_cons, Option.mem_def, Option.some.injEq, forall_eq', halone]
  split
  next hfollowed =>
    rw [report_eq_ok rfl]
    refine ⟨fun heq => ?_, fun hnot => absurd hfollowed hnot⟩
    cases heq
  next hnot => exact ⟨fun _ => hnot, fun _ => rfl⟩

/-- The padding behind several words is not taken for another one, and a single word that does not
end in `s` is no verb anyway. -/
theorem summaryVerb_retold_unpadding (d : Declaration) {doc doc' : Docstring}
    {place : Position → Position → Prop} (h : doc.Retold unpadding place doc')
    (hlone : ¬ LoneVerb d doc) :
    Restates (Span.Both place) (summaryVerb d doc) (summaryVerb d doc') := by
  rw [summaryVerb_eq, summaryVerb_eq, h.summaryLines]
  cases hsummary : summaryLines doc with
  | nil => exact restates_silent
  | cons first rest =>
      have hfirst := h.summary_readable first (by simp [hsummary])
      have hcontent : strip (unpadding.onLine first).text = strip first.text :=
        h.lawful.content first
      simp only [List.map_cons]
      by_cases hword : ∀ c ∈ strip first.text, isSpace c = false
      · have hsilent : (d.form.isCallable && endsWith (strip first.text) (ascii "s")) = false := by
          rw [Bool.eq_false_iff, Ne, Bool.and_eq_true]
          exact fun hverb => hlone ⟨hverb.1, first, by rw [hsummary]; rfl, hword, hverb.2⟩
        have hword' : ∀ c ∈ strip (unpadding.onLine first).text, isSpace c = false := by
          rwa [hcontent]
        rw [takeWhile_stripStart_of_word hword, takeWhile_stripStart_of_word hword', hcontent,
          Bool.and_right_comm, hsilent, Bool.and_right_comm, hsilent]
        exact restates_silent
      · have hword' : ¬ ∀ c ∈ strip (unpadding.onLine first).text, isSpace c = false := by
          rwa [hcontent]
        have hsame : ((stripStart (unpadding.onLine first).text).takeWhile fun c => !isSpace c) =
            (stripStart first.text).takeWhile fun c => !isSpace c :=
          ignoresPadding_firstWord.unpad_eq first.text
        rw [decide_eq_true (length_takeWhile_stripStart_lt hword),
          decide_eq_true (length_takeWhile_stripStart_lt hword'), hsame]
        split
        · exact restates_one rfl (h.lawful.ofLength (h.lawful.column_leading hfirst) _) _ _
        · exact restates_silent

theorem loneVerb_retold_unpadding {d : Declaration} {doc doc' : Docstring}
    {place : Position → Position → Prop} (h : doc.Retold unpadding place doc') :
    LoneVerb d doc' ↔ LoneVerb d doc := by
  have hcontent (line : DocLine) : strip (unpadding.onLine line).text = strip line.text :=
    h.lawful.content line
  unfold LoneVerb
  rw [h.summaryLines, List.head?_map]
  cases (summaryLines doc).head? with
  | none => simp
  | some first => simp [hcontent]

/-! ### What is said -/

/-- What a finding says: its code and its message. -/
def verdict (finding : Diagnostic) : Bytes × Bytes := (finding.code, finding.message)

/-- What a check says about a docstring. -/
def Says (check : Check) (d : Declaration) (doc : Docstring) (said : List (Bytes × Bytes)) : Prop :=
  (check.run d doc).map (List.map verdict) = .ok said

/-- What is said about the docstring of a literal, in order: the flaws, and then the findings of
some checks.  Nothing is said where one of the checks fails. -/
def verdicts (checks : List Check) (d : Declaration) (literal : DocLiteral) :
    Except Failure (List (Bytes × Bytes)) := do
  let (doc, flaws) := Docstring.ofLiteral literal
  let said ← checks.mapM fun check : Check => (check.run d doc).map (List.map verdict)
  return flaws.map (fun flaw => verdict flaw.diagnostic) ++ said.flatten

/-- Findings that are restated say the same. -/
theorem Restates.exists_said {R : Span → Span → Prop} {result result' : CheckResult}
    (h : Restates R result result') :
    ∃ said, result.map (List.map verdict) = .ok said ∧
      result'.map (List.map verdict) = .ok said := by
  obtain ⟨found, found', rfl, rfl, hrestates⟩ := h
  refine ⟨found.map verdict, rfl, congrArg Except.ok ?_⟩
  rw [← List.forall₂_eq_eq_eq, List.forall₂_map_left_iff, List.forall₂_map_right_iff]
  exact (hrestates.imp fun f f' hf => congrArg₂ Prod.mk hf.code hf.message).flip

/-- What every check says of both, all of them say of both. -/
theorem exists_verdicts {checks : List Check} {d : Declaration} {literal literal' : DocLiteral}
    (hflaws : (Docstring.ofLiteral literal').2 = (Docstring.ofLiteral literal).2)
    (h : ∀ check ∈ checks, ∃ said, check.Says d (Docstring.ofLiteral literal).1 said ∧
      check.Says d (Docstring.ofLiteral literal').1 said) :
    ∃ said, verdicts checks d literal = .ok said ∧ verdicts checks d literal' = .ok said := by
  obtain ⟨said, hsaid, hsaid'⟩ : ∃ said,
      (checks.mapM fun check : Check =>
        (check.run d (Docstring.ofLiteral literal).1).map (List.map verdict)) = .ok said ∧
      (checks.mapM fun check : Check =>
        (check.run d (Docstring.ofLiteral literal').1).map (List.map verdict)) = .ok said := by
    induction checks with
    | nil => exact ⟨[], rfl, rfl⟩
    | cons check checks ih =>
        obtain ⟨first, hfirst, hfirst'⟩ := h check List.mem_cons_self
        obtain ⟨rest, hrest, hrest'⟩ := ih fun other hother =>
          h other (List.mem_cons_of_mem check hother)
        rw [Says] at hfirst hfirst'
        refine ⟨first :: rest, ?_, ?_⟩
        · rw [List.mapM_cons, hfirst, hrest]
          rfl
        · rw [List.mapM_cons, hfirst', hrest']
          rfl
  refine ⟨(Docstring.ofLiteral literal).2.map (fun flaw => verdict flaw.diagnostic) ++
    said.flatten, ?_, ?_⟩
  · unfold verdicts
    dsimp only
    rw [hsaid]
    rfl
  · unfold verdicts
    dsimp only
    rw [hsaid', hflaws]
    rfl

/-- A registered check says the same about the docstring of a literal with and without its padding;
the rule about the first word does so unless the word stands alone. -/
theorem says_bare {check : Check} (hcheck : check ∈ registered) (d : Declaration)
    (literal : DocLiteral)
    (hlone : check.id = Code.ss05.name → ¬ LoneVerb d (Docstring.ofLiteral literal).1) :
    ∃ said, check.Says d (Docstring.ofLiteral literal).1 said ∧
      check.Says d (Docstring.ofLiteral literal).1.bare said := by
  have hretold := Docstring.retold_bare literal
  exact (registered_retold hretold d check hcheck fun hverb =>
    summaryVerb_retold_unpadding d hretold (hlone hverb)).exists_said

end Check

/-! ### Padded literals -/

namespace DocLiteral

/-- The literal with something behind each of its lines; it then ends elsewhere. -/
def padded (literal : DocLiteral) (pads : Nat → Bytes) (stop : Position) : DocLiteral :=
  { literal with
    body := join [newline] ((Bytes.lines literal.body).mapIdx fun i line => line ++ pads i)
    stop }

/-- Padding adds no lines. -/
theorem lines_body_padded (literal : DocLiteral) {pads : Nat → Bytes}
    (hpads : ∀ i, IsPadding (pads i)) (stop : Position) :
    Bytes.lines (literal.padded pads stop).body =
      (Bytes.lines literal.body).mapIdx fun i line => line ++ pads i := by
  refine lines_join (by simpa using lines_ne_nil literal.body) fun piece hpiece => ?_
  obtain ⟨i, hi, rfl⟩ := List.mem_mapIdx.1 hpiece
  rw [List.mem_append, not_or]
  exact ⟨newline_not_mem_of_mem_lines (List.getElem_mem hi), (hpads i).not_mem (by decide)⟩

theorem lines_padded_unpadded (literal : DocLiteral) {pads : Nat → Bytes}
    (hpads : ∀ i, IsPadding (pads i)) (stop : Position) :
    (literal.padded pads stop).lines.map DocLine.unpadded = literal.lines.map DocLine.unpadded := by
  apply List.ext_getElem
  · rw [List.length_map, List.length_map, length_lines, length_lines,
      lines_body_padded literal hpads stop, List.length_mapIdx]
  · intro i hi hi'
    rw [List.length_map] at hi hi'
    obtain ⟨_, hline⟩ := getElem_lines (literal.padded pads stop) hi
    obtain ⟨_, hline'⟩ := getElem_lines literal hi'
    rw [List.getElem_map, List.getElem_map, hline, hline']
    simp only [lines_body_padded literal hpads stop, List.getElem_mapIdx]
    exact congrArg (DocLine.mk _) (ignoresPadding_unpad _ _ (hpads i))

end DocLiteral

namespace Check

/-- What is said about a docstring does not depend on the spaces and carriage returns behind its
lines, but for the rule about the first word of the summary, which takes them for more text behind a
word that stands alone. -/
theorem verdicts_padded (literal : DocLiteral) {pads : Nat → Bytes}
    (hpads : ∀ i, IsPadding (pads i)) (stop : Position) (d : Declaration) :
    (∃ said, verdicts (registered.filter fun check => check.id != Code.ss05.name) d literal =
        .ok said ∧
      verdicts (registered.filter fun check => check.id != Code.ss05.name) d
        (literal.padded pads stop) = .ok said) ∧
    (¬ LoneVerb d (Docstring.ofLiteral literal).1 →
      ∃ said, verdicts registered d literal = .ok said ∧
        verdicts registered d (literal.padded pads stop) = .ok said) := by
  obtain ⟨hbare, hflaws⟩ := @Docstring.ofLiteral_bare literal (literal.padded pads stop) rfl rfl
    (literal.lines_padded_unpadded hpads stop)
  have hloneVerb : LoneVerb d (Docstring.ofLiteral (literal.padded pads stop)).1 ↔
      LoneVerb d (Docstring.ofLiteral literal).1 := by
    rw [← loneVerb_retold_unpadding (Docstring.retold_bare (literal.padded pads stop)), hbare,
      loneVerb_retold_unpadding (Docstring.retold_bare literal)]
  -- Both docstrings are the same one without padding.
  have hsays : ∀ check ∈ registered,
      (check.id = Code.ss05.name → ¬ LoneVerb d (Docstring.ofLiteral literal).1) →
      ∃ said, check.Says d (Docstring.ofLiteral literal).1 said ∧
        check.Says d (Docstring.ofLiteral (literal.padded pads stop)).1 said := by
    intro check hcheck hlone
    obtain ⟨said, hsaid, hbareSaid⟩ := says_bare hcheck d literal hlone
    obtain ⟨said', hsaid', hbareSaid'⟩ := says_bare hcheck d (literal.padded pads stop)
      fun hid => hloneVerb.not.2 (hlone hid)
    rw [hbare] at hbareSaid'
    obtain rfl : said = said' := Except.ok.inj (hbareSaid.symm.trans hbareSaid')
    exact ⟨said, hsaid, hsaid'⟩
  refine ⟨exists_verdicts hflaws fun check hcheck => ?_, fun hlone =>
    exists_verdicts hflaws fun check hcheck => hsays check hcheck fun _ => hlone⟩
  obtain ⟨hmem, hid⟩ := List.mem_filter.1 hcheck
  exact hsays check hmem fun heq => absurd heq (by simpa using hid)

/-- A function without parameters. -/
def sampleFunction : Declaration := { form := .functionDecl ⟨ascii "f", {}⟩ [] {}, span := {} }

/-- The body of a docstring with a section whose underline is too short. -/
def shortUnderline : DocLiteral :=
  ⟨ascii "Do it\n\n    Returns\n    ---\n    int:\n    ", ⟨2, 5⟩, ⟨2, 8⟩, ⟨7, 8⟩, 4⟩

/-- The docstring with one more space behind each line than behind the line above, and with carriage
returns. -/
theorem verdicts_padded_shortUnderline :
    let pads := fun i => List.replicate i space ++ [carriageReturn]
    (∀ i, IsPadding (pads i)) ∧
      ¬ LoneVerb sampleFunction (Docstring.ofLiteral shortUnderline).1 ∧
      ∃ said, verdicts registered sampleFunction shortUnderline = .ok said ∧
        verdicts registered sampleFunction (shortUnderline.padded pads ⟨7, 14⟩) = .ok said := by
  intro pads
  have hpads : ∀ i, IsPadding (pads i) := by
    intro i c hc
    rcases List.mem_append.1 hc with hspace | hreturn
    · rw [List.eq_of_mem_replicate hspace]
      rfl
    · rw [List.mem_singleton.1 hreturn]
      rfl
  have hlone : ¬ LoneVerb sampleFunction (Docstring.ofLiteral shortUnderline).1 := by decide +kernel
  exact ⟨hpads, hlone, (verdicts_padded shortUnderline hpads ⟨7, 14⟩ sampleFunction).2 hlone⟩

/-- A summary of one word. -/
def loneVerb : DocLiteral := ⟨ascii "Does", ⟨2, 5⟩, ⟨2, 8⟩, ⟨2, 15⟩, 4⟩

/-- One space behind the only word of a summary makes a finding. -/
theorem verdicts_padded_loneVerb :
    IsPadding [space] ∧ LoneVerb sampleFunction (Docstring.ofLiteral loneVerb).1 ∧
      verdicts registered sampleFunction (loneVerb.padded (fun _ => [space]) ⟨2, 16⟩) ≠
        verdicts registered sampleFunction loneVerb := by
  refine ⟨fun c hc => ?_, by decide +kernel, by decide +kernel⟩
  rw [List.mem_singleton.1 hc]
  rfl

end Check

end DocLint
