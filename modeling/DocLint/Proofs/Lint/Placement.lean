import DocLint.Lint.Report
import DocLint.Proofs.Check.Coverage
import DocLint.Proofs.Lint.Isolation
import DocLint.Proofs.Source.Provenance

/-!
# Findings are about places in the file

Every finding about an accepted source text covers a span of this text.  The spans of declarations
are runs of tokens, and tokens stand in the text in order; docstrings are read from string tokens,
which are closed in an accepted text; and the checks cover spans of these declarations and
docstrings.

* `isIn_of_isRunOf`: consecutive tokens take up a span of the source text.
* `ofLiteral_isPlaced`: the docstring of a closed string token is placed, and so are its flaws.
* `validate_isPlaced`: so is what is found about a declaration.
* `lint_isPlaced`: so is what is found in an accepted source text.
-/

namespace DocLint

open Bytes

/-! ### Tokens and declarations -/

/-- From the beginning of a token to the end of another one that does not end before it. -/
theorem Span.isIn_of_standsIn {source : Bytes} (hsize : source.length < 2 ^ 31) {t u : Token}
    (ht : t.StandsIn source) (hu : u.StandsIn source) (h : t.offset ≤ u.offset + u.text.length) :
    (Span.mk t.position u.stop).IsIn source := by
  obtain ⟨front, behind, hsource, hposition, hoffset⟩ := ht
  obtain ⟨front', behind', hsource', hposition', hoffset'⟩ := hu
  have hfront : front <+: source := ⟨_, hsource.symm⟩
  have hstop : front' ++ u.text <+: source := ⟨behind', by rw [hsource', List.append_assoc]⟩
  have hlength : front.length ≤ (front' ++ u.text).length := by
    rw [List.length_append]
    omega
  obtain ⟨text, htext⟩ := List.prefix_of_prefix_length_le hfront hstop hlength
  have hsplit : source = front ++ (text ++ behind') := by
    rw [hsource', ← List.append_assoc, ← List.append_assoc, htext]
  have hspan := isIn_after hsplit hsize
  rw [htext, Position.after_append] at hspan
  rw [hposition, Token.stop, hposition']
  exact hspan

section Tokens

variable {source : Bytes} (hsize : source.length < 2 ^ 31) {tokens : List Token}
  (hstands : ∀ t ∈ tokens, t.StandsIn source)
  (hordered : tokens.Pairwise fun t u => t.offset + t.text.length ≤ u.offset)
include hsize hstands hordered

/-- Consecutive tokens take up a span of the source text. -/
theorem isIn_of_isRunOf {s : Span} (h : s.IsRunOf tokens) : s.IsIn source := by
  obtain ⟨run, hrun, rfl⟩ := h
  have hrun' := hordered.sublist hrun.sublist
  cases run with
  | nil =>
      -- No tokens take up the beginning of the text.
      have hempty : source = [] ++ ([] ++ source) := rfl
      exact Span.isIn_after hempty hsize
  | cons first rest =>
      have hlast : (first :: rest).getLast? = some ((first :: rest).getLast (by simp)) :=
        List.getLast?_eq_some_getLast _
      have hmem := List.getLast_mem (List.cons_ne_nil first rest)
      rw [Parameter.itemSpan, List.head?_cons, hlast]
      refine Span.isIn_of_standsIn hsize (hstands _ (hrun.subset List.mem_cons_self))
        (hstands _ (hrun.subset hmem)) ?_
      rcases List.mem_cons.1 hmem with heq | hmem
      · rw [heq]
        exact Nat.le_add_right _ _
      · have hbehind := (List.pairwise_cons.1 hrun').1 _ hmem
        omega

/-- A declaration that comes from the tokens is placed. -/
theorem Declaration.IsFrom.isPlaced {d : Declaration} (h : d.IsFrom tokens) :
    d.IsPlaced source :=
  ⟨isIn_of_isRunOf hsize hstands hordered h.anchor, isIn_of_isRunOf hsize hstands hordered h.front,
    fun p hp => isIn_of_isRunOf hsize hstands hordered (h.parameters p hp)⟩

end Tokens

/-! ### Docstrings -/

namespace DocLiteral

/-- Each line of a literal is one line below the one before. -/
theorem line_getElem_lines (literal : DocLiteral) {i : Nat} (hi : i < literal.lines.length) :
    literal.lines[i].position.line = literal.bodyStart.line + UInt32.ofNat i := by
  simp only [lines, List.getElem_mapIdx]
  cases i with
  | zero => exact (UInt32.add_zero _).symm
  | succ i => rfl

/-- The lines of a literal follow each other without their numbers wrapping around. -/
theorem lines_descending {literal : DocLiteral} (hbody : literal.body.length < 2 ^ 31)
    (hstart : literal.bodyStart.line.toNat ≤ 2 ^ 31) :
    literal.lines.Pairwise fun a b => a.position.line.toNat < b.position.line.toNat := by
  have hcount := Bytes.length_lines literal.body
  have hnewlines := List.count_le_length (a := newline) (l := literal.body)
  have hlength := literal.length_lines
  rw [List.pairwise_iff_getElem]
  intro i j hi hj hij
  rw [line_getElem_lines, line_getElem_lines, UInt32.toNat_add, UInt32.toNat_add,
    UInt32.toNat_ofNat', UInt32.toNat_ofNat']
  omega

section Written

variable {source front behind text mark delimiter body : Bytes}
  (hsource : source = front ++ (text ++ behind)) (hsize : source.length < 2 ^ 31)
  (hwritten : IsWritten text mark delimiter body)
include hsource hsize hwritten

/-- The opening of a literal leads to its first line. -/
theorem opening_isIn :
    (Span.mk (.after {} front) (ofText text (.after {} front)).bodyStart).IsIn source := by
  have hsplit : source = front ++ ((mark ++ delimiter) ++ (body ++ delimiter ++ behind)) := by
    rw [hsource, hwritten.text_eq]
    simp
  have hstands := standsAt_after hsplit hsize hwritten.newline_not_mem_opening
  have hspan := Span.isIn_columns hstands hsize (Nat.zero_le _) (Nat.le_refl _)
  rw [Position.right_zero, List.length_append] at hspan
  rwa [hwritten.ofText_eq]

theorem ofText_lines_descending :
    (ofText text (.after {} front)).lines.Pairwise fun a b =>
      a.position.line.toNat < b.position.line.toNat := by
  have hbodySize : body.length ≤ source.length := by
    rw [hsource, hwritten.text_eq]
    simp only [List.length_append]
    omega
  have hrow : (Position.after {} front).line.toNat ≤ (Bytes.lines source).length :=
    (opening_isIn hsource hsize hwritten).start.column_le.2.1
  have hcount := Bytes.length_lines source
  have hnewlines := List.count_le_length (a := newline) (l := source)
  apply lines_descending
  · rw [hwritten.ofText_eq]
    show body.length < 2 ^ 31
    omega
  · rw [hwritten.ofText_eq]
    show (Position.after {} front).line.toNat ≤ 2 ^ 31
    omega

end Written

/-- The first line of a literal begins with its body. -/
theorem position_of_mem_head? {literal : DocLiteral} {first : DocLine}
    (h : first ∈ literal.lines.head?) : first.position = literal.bodyStart := by
  obtain ⟨text, texts, hbody⟩ := List.exists_cons_of_ne_nil (Bytes.lines_ne_nil literal.body)
  rw [lines_of_body hbody] at h
  cases h
  rfl

end DocLiteral

theorem Fragment.IsIn.spanIsIn {source : Bytes} {lines : List DocLine} {f : Fragment}
    (h : f.IsIn lines) (hsize : source.length < 2 ^ 31)
    (hlines : ∀ line ∈ lines, StandsAt source line.position line.text) : f.span.IsIn source := by
  have hstands := (h.1.standsAt hsize hlines).1
  have hspan := Span.isIn_columns hstands hsize (Nat.zero_le _) (Nat.le_refl f.value.length)
  rw [Position.right_zero, ← h.2] at hspan
  exact hspan

/-- The docstring of a closed string token is placed, and so are the findings about its flaws. -/
theorem ofLiteral_isPlaced {source : Bytes} (hsize : source.length < 2 ^ 31) {t : Token}
    (ht : t ∈ (LexedSource.ofSource source).tokens) (hkind : t.kind = .string)
    (hclosed : ⟨t.position, .unterminatedString⟩ ∉ (LexedSource.ofSource source).faults) :
    (Docstring.ofLiteral (.ofText t.text t.position)).1.IsPlaced source ∧
      ∀ flaw ∈ (Docstring.ofLiteral (.ofText t.text t.position)).2,
        flaw.diagnostic.IsPlaced source := by
  obtain ⟨⟨front, behind, hsource, hposition, -⟩, mark, delimiter, body, hwritten⟩ :=
    LexedSource.string_isWritten ht hkind hclosed
  rw [hposition]
  have hlines := DocLiteral.lines_standAt hsource hsize hwritten
  have hopening := DocLiteral.opening_isIn hsource hsize hwritten
  obtain ⟨hpieces, hfragments, hflaws⟩ :=
    Docstring.ofLiteral_isIn (DocLiteral.ofText t.text (.after {} front))
  refine ⟨⟨fun l hl => ((hpieces l hl).standsAt hsize hlines).1,
    fun f hf => (hfragments f hf).spanIsIn hsize hlines,
    DocLiteral.ofText_lines_descending hsource hsize hwritten,
    fun s hs => DocSummary.read_consecutive hs, hopening.start, fun first hfirst => ?_⟩,
    fun flaw hflaw => Span.IsIn.isPlaced ?_⟩
  · rw [DocLiteral.position_of_mem_head? hfirst]
    exact hopening
  · rw [flaw.span_diagnostic]
    exact (hflaws flaw hflaw).isIn.spanIsIn hsize hlines

/-! ### Findings -/

namespace Validator

variable {source : Bytes} {d : Declaration}

/-- A check contributes its findings, or its failure at the name of the declaration. -/
theorem contribution_isPlaced (v : Validator) (hd : d.IsPlaced source) {doc : Docstring}
    {check : Check} (hcheck : Check.Places source (check.run d doc)) :
    ∀ f ∈ v.contribution d doc check, f.IsPlaced source := by
  intro f hf
  unfold contribution at hf
  split at hf
  · cases hf
  · split at hf
    next failure _ =>
      rw [List.mem_singleton.1 (List.mem_of_mem_filter hf)]
      exact hd.anchor.isPlaced
    next findings hrun => exact hcheck findings hrun f (List.mem_of_mem_filter hf)

theorem runChecks_isPlaced (v : Validator) (hd : d.IsPlaced source) {doc : Docstring}
    {checks : List Check} (hchecks : ∀ check ∈ checks, Check.Places source (check.run d doc)) :
    ∀ f ∈ v.runChecks d doc checks, f.IsPlaced source := by
  intro f hf
  rw [runChecks_eq_upToTerminating] at hf
  obtain ⟨check, hcheck, hf⟩ := List.mem_flatMap.1 (mem_of_mem_upToTerminating hf)
  exact contribution_isPlaced v hd (hchecks check hcheck) f hf

/-- What is found about a placed declaration with a placed docstring. -/
theorem validate_isPlaced (config : Config) (hsize : source.length < 2 ^ 31)
    (hd : d.IsPlaced source)
    (hdoc : ∀ literal ∈ d.docstring, (Docstring.ofLiteral literal).1.IsPlaced source ∧
      ∀ flaw ∈ (Docstring.ofLiteral literal).2, flaw.diagnostic.IsPlaced source) :
    ∀ f ∈ (ofConfig config).validate d, f.IsPlaced source := by
  intro f hf
  unfold validate at hf
  split at hf
  · cases hf
  · split at hf
    · rw [List.mem_singleton.1 (List.mem_of_mem_filter hf)]
      exact hd.front.isPlaced
    next literal hliteral =>
      obtain ⟨hplaced, hflaws⟩ := hdoc literal hliteral
      have hchecks : ∀ check ∈ config.checks,
          Check.Places source (check.run d (Docstring.ofLiteral literal).1) := fun check hcheck =>
        Check.registered_place hsize hd hplaced check (List.mem_of_mem_filter hcheck)
      dsimp only at hf
      rcases List.mem_append.1 hf with hf | hf
      · obtain ⟨flaw, hflaw, rfl⟩ := List.mem_map.1 (List.mem_of_mem_filter hf)
        exact hflaws flaw hflaw
      · exact runChecks_isPlaced (ofConfig config) hd hchecks f hf

/-- An accepted source text that is small enough for positions is linted, and every finding covers
lines of it, from a beginning to an end that does not come before; the columns are columns of these
lines, but for double blank lines and for the end of a missing extended summary. -/
theorem lint_isPlaced {source : Bytes} (hsize : source.length < 2 ^ 31)
    (haccepted : (ScannedSource.ofSource source).isAccepted = true) (config : Config) :
    ∃ findings, (ofConfig config).lint source = .ok findings ∧
      ∀ f ∈ findings, f.diagnostic.IsPlaced source := by
  refine ⟨_, if_pos haccepted, fun f hf => ?_⟩
  obtain ⟨d, hd, hf⟩ := List.mem_flatMap.1 hf
  obtain ⟨diagnostic, hdiagnostic, rfl⟩ := List.mem_map.1 hf
  have htokens {t : Token} (ht : t ∈ (LexedSource.ofSource source).tokens.dropLast) :
      t ∈ (LexedSource.ofSource source).tokens := List.dropLast_subset _ ht
  have hstands (t : Token) (ht : t ∈ (LexedSource.ofSource source).tokens.dropLast) :
      t.StandsIn source :=
    (LexedSource.ofSource_faithful source t (LexedSource.mem_tokens_iff.1 (htokens ht))).1
  have hordered := (LexedSource.pairwise_tokens source).sublist (List.dropLast_sublist _)
  have hfrom := ScannedSource.ofTokens_isFrom _ _ d hd
  -- A literal without its end would have been a fault of the source text.
  have hfaults : (LexedSource.ofSource source).faults = [] := by
    have hnone : ((LexedSource.ofSource source).faults ++ _) = [] := List.isEmpty_iff.1 haccepted
    exact (List.append_eq_nil_iff.1 hnone).1
  refine validate_isPlaced config hsize (hfrom.isPlaced hsize hstands hordered) ?_ diagnostic
    hdiagnostic
  intro literal hliteral
  obtain ⟨t, ht, hkind, rfl⟩ := hfrom.docstring literal hliteral
  refine ofLiteral_isPlaced hsize (htokens ht) hkind ?_
  rw [hfaults]
  exact List.not_mem_nil

/-- A function with a docstring behind a letter, which has two blank lines, and no extended summary. -/
def gappedSource : Bytes :=
  ascii "def f(a):\n    r'''Do it\n\n\n    '''\n"

theorem lint_isPlaced_gappedSource :
    (gappedSource.length < 2 ^ 31 ∧ (ScannedSource.ofSource gappedSource).isAccepted = true) ∧
      ∃ findings, (ofConfig {}).lint gappedSource = .ok findings ∧
        ∀ f ∈ findings, f.diagnostic.IsPlaced gappedSource := by
  have hsize : gappedSource.length < 2 ^ 31 := by cbv
  have haccepted : (ScannedSource.ofSource gappedSource).isAccepted = true := by cbv
  exact ⟨⟨hsize, haccepted⟩, lint_isPlaced hsize haccepted {}⟩

end Validator

end DocLint
