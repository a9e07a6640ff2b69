import DocLint.Proofs.Source.Ownership

/-!
# Which comments are attached to a header

A header goes from the line on which a declaration begins to the one on which its header ends.  The
comments attached to it are those alone on the line above and those behind code on its own lines.
The scanner does not look at all the comments to find them: it begins at the line above, and stops
below the last line.  Since the comments are in the order of their lines, it misses none.

* `HasWindow`: the lines of a declaration's header, by the tokens that it is made of.
* `attachedCodes`: the codes attached to some lines, by the bytes of the source text alone.
* `ofSource_noqa_attached`: every declaration has the codes attached to its header, if a carriage
  return does not count as a blank in front of a comment.
* `not_noqa_attached_returnSource`: if it does, as it does elsewhere, not all declarations have them.
-/

namespace DocLint

open Bytes

/-! ### The lines of a header -/

variable {comments : List Comment} {tokens : List Token} {d : Declaration} {first last : UInt32}

/-- The first and the last line of the header of a declaration: of the module, those of its docstring,
or the line on which the tokens begin; of a definition, those of its first token and of its colon; of
a constant, those of its name and of the newline. -/
inductive HasWindow (comments : List Comment) (tokens : List Token) (d : Declaration) :
    UInt32 → UInt32 → Prop
  | file (h : IsModule comments tokens d) :
      HasWindow comments tokens d (TokenCursor.ofTokens tokens).position.line
        (lastModuleLine tokens d.docstring)
  | definition {s : DefinitionTokens} (h : Defines comments s d) (within : s.tokens <:+: tokens) :
      HasWindow comments tokens d s.first.position.line s.header.colon.position.line
  | constant {s : ConstantTokens} (h : Assigns comments s d) (within : s.tokens <:+: tokens) :
      HasWindow comments tokens d s.name.position.line s.newline.position.line

/-- The declarations that tokens hold have headers. -/
theorem Holds.exists_window {kind : ScopeKind} {run rest : List Token} {ds : List Declaration}
    (h : Holds comments kind run rest ds) (hrun : run <:+: tokens) :
    ∀ d ∈ ds, ∃ first last, HasWindow comments tokens d first last := by
  induction h with
  | nothing => simp
  | @append _ run more _ _ _ _ _ ihfirst ihsecond =>
      exact List.forall_mem_append.2 ⟨ihfirst ((List.prefix_append run more).isInfix.trans hrun),
        ihsecond ((List.suffix_append run more).isInfix.trans hrun)⟩
  | function defines => exact List.forall_mem_singleton.2 ⟨_, _, .definition defines hrun⟩
  | @classDef s _ _ _ defines _ _ _ _ ih =>
      exact List.forall_mem_cons.2 ⟨⟨_, _, .definition defines hrun⟩,
        ih (s.suite_isSuffix.isInfix.trans hrun)⟩
  | constant assigns => exact List.forall_mem_singleton.2 ⟨_, _, .constant assigns hrun⟩

/-- Every declaration of a file has a header. -/
theorem ScannedSource.exists_window {context : ScanContext}
    (hd : d ∈ (ofTokens context tokens).declarations) :
    ∃ first last, HasWindow context.comments tokens d first last := by
  obtain ⟨file, ds, run, rest, hdeclarations, hfile, hholds, hrun⟩ := ofTokens_holds context tokens
  rw [hdeclarations] at hd
  rcases List.mem_cons.1 hd with rfl | hd
  · exact ⟨_, _, .file hfile⟩
  · exact hholds.exists_window (hrun.trans (List.dropLast_prefix tokens).isInfix) d hd

/-- Where a cursor in front of some tokens stands. -/
theorem TokenCursor.position_ofTokens (tokens : List Token) :
    (ofTokens tokens).position = {} ∨ ∃ t ∈ tokens, (ofTokens tokens).position = t.position := by
  unfold position ofTokens
  dsimp only
  split
  next t rest hafter => exact .inr ⟨t, List.dropLast_subset _ (hafter ▸ List.mem_cons_self), rfl⟩
  · split
    next mark hmark => exact .inr ⟨mark, List.mem_of_getLast? hmark, rfl⟩
    · exact .inl rfl

namespace HasWindow

/-- The codes of a declaration are those of the comments between the lines of its header. -/
theorem noqa_eq (h : HasWindow comments tokens d first last) :
    d.noqa = Noqa.codesFor first last comments := by
  cases h with
  | file h => exact h.noqa_eq
  | definition h _ => rw [h.noqa_eq, h.start_eq]
  | constant h _ => rw [h.noqa_eq, h.start_eq]

/-- But for the module, the header begins where the declaration does. -/
theorem first_eq (h : HasWindow comments tokens d first last) (hform : d.form ≠ .moduleDecl) :
    first = d.span.start.line := by
  cases h with
  | file h => exact absurd h.form_eq hform
  | definition h _ => rw [h.start_eq]
  | constant h _ => rw [h.start_eq]

variable {source : Bytes} (hlines : source.count newline + 1 < 2 ^ 32)
include hlines

/-- Lines are counted from one. -/
theorem first_pos (h : HasWindow comments tokens d first last) (hs : Standing source tokens) :
    1 ≤ first.toNat := by
  have hpos {t : Token} (ht : t ∈ tokens) : 1 ≤ t.position.line.toNat := by
    rw [hs.line_eq hlines ht]
    exact Nat.le_add_right 1 _
  cases h with
  | file h =>
      rcases TokenCursor.position_ofTokens tokens with hposition | ⟨t, ht, hposition⟩
      · rw [hposition]
        exact Nat.le_refl 1
      · rw [hposition]
        exact hpos ht
  | @definition s h within =>
      obtain ⟨front, htokens⟩ := s.exists_tokens_eq
      exact hpos (within.subset (by simp [htokens]))
  | constant h within => exact hpos (within.subset (by simp [ConstantTokens.tokens]))

/-- A header does not end above the line on which it begins. -/
theorem first_le (h : HasWindow comments tokens d first last) (hs : Standing source tokens) :
    first ≤ last := by
  cases h with
  | file h =>
      cases hdocstring : d.docstring with
      | none => exact UInt32.le_refl _
      | some literal =>
          obtain ⟨t, ht, -, rfl, hposition⟩ := h.docstring literal hdocstring
          rw [hposition]
          exact hs.line_le_stop hlines (List.dropLast_subset _ ht)
  | @definition s h within =>
      obtain ⟨front, htokens⟩ := s.exists_tokens_eq
      have hstanding := hs.sublist within.sublist
      rw [htokens] at hstanding
      exact hstanding.line_mono hlines (by simp) List.mem_cons_self
  | constant h within =>
      exact (hs.sublist within.sublist).line_mono hlines List.mem_cons_self List.mem_cons_self

end HasWindow

/-! ### Attached comments -/

/-- The comment is attached to a header: it stands alone on the line above, or behind something else
on one of the lines. -/
def Comment.isAttachedTo (source : Bytes) (blank : UInt8 → Bool) (first last : UInt32)
    (c : Comment) : Bool :=
  let line := source.lineNumber c.offset
  if c.standsAlone source blank then line + 1 == first.toNat
  else decide (first.toNat ≤ line) && decide (line ≤ last.toNat)

/-- The codes of the comments attached to a header, in the order of the source text. -/
def attachedCodes (source : Bytes) (blank : UInt8 → Bool) (first last : UInt32) : List Bytes :=
  ((LexedSource.ofSource source).comments.filter
    (Comment.isAttachedTo source blank first last)).flatMap fun c => Noqa.codes c.text

/-- The comments of a header are those attached to it. -/
theorem HeaderLines.owns_eq {source : Bytes} {w : HeaderLines} (hfirst : 1 ≤ w.first.toNat)
    (hlines : source.count newline + 1 < 2 ^ 32) {c : Comment}
    (hc : c ∈ (LexedSource.ofSource source).comments) :
    w.owns c = c.isAttachedTo source isIndentation w.first w.last := by
  have hline := LexedSource.comment_line_eq hlines hc
  have hle := UInt32.le_iff_toNat_le.1 w.first_le
  have habove : (w.first - 1).toNat = w.first.toNat - 1 :=
    UInt32.toNat_sub_of_le _ _ (UInt32.le_iff_toNat_le.2 hfirst)
  have hbound := source.lineNumber_le c.offset
  have hlt := w.first.toNat_lt
  rw [owns, Noqa.isAttached, Comment.isAttachedTo, LexedSource.ownLine_eq hc, Bool.eq_iff_iff]
  cases c.standsAlone source isIndentation with
  | true =>
      -- Only the line number zero is above no line, and no header begins there.
      simp only [Bool.and_eq_true, decide_eq_true_eq, if_pos, beq_iff_eq, UInt32.le_iff_toNat_le,
        ← UInt32.toNat_inj, UInt32.toNat_add, UInt32.toNat_one, habove, hline]
      omega
  | false =>
      simp only [Bool.and_eq_true, decide_eq_true_eq, Bool.false_eq_true, if_false,
        UInt32.le_iff_toNat_le, habove, hline]
      omega

/-- Every declaration has the codes of the comments attached to its header. -/
theorem HasWindow.noqa_eq_attachedCodes {source : Bytes}
    (h : HasWindow (LexedSource.ofSource source).comments (LexedSource.ofSource source).tokens d
      first last) (hlines : source.count newline + 1 < 2 ^ 32) :
    d.noqa = attachedCodes source isIndentation first last := by
  have hs := LexedSource.ofSource_standing source
  have hcodes := Noqa.codesFor_eq_filter (LexedSource.comments_sorted hlines)
    ⟨first, last, h.first_le hlines hs⟩
  rw [h.noqa_eq, hcodes, attachedCodes]
  exact congrArg _ (List.filter_congr fun c hc =>
    HeaderLines.owns_eq (h.first_pos hlines hs) hlines hc)

/-! ### Carriage returns in front of comments -/

/-- There is no carriage return among the blanks in front of a comment that stands alone. -/
def Comment.IsClear (source : Bytes) (c : Comment) : Prop :=
  c.standsAlone source isInlineBlank = true → carriageReturn ∉ source.lineFront c.offset

/-- Where it makes no difference whether a carriage return is a blank. -/
theorem Comment.IsClear.standsAlone_eq {source : Bytes} {c : Comment} (h : c.IsClear source) :
    c.standsAlone source isInlineBlank = c.standsAlone source isIndentation := by
  have hblank (b : UInt8) : isInlineBlank b = (isIndentation b || b == carriageReturn) := rfl
  rw [Bool.eq_iff_iff]
  constructor
  · intro hall
    have hreturn := h hall
    rw [standsAlone, List.all_eq_true] at hall ⊢
    intro b hb
    have hb' := hall b hb
    rw [hblank, beq_false_of_ne (ne_of_mem_of_not_mem hb hreturn), Bool.or_false] at hb'
    exact hb'
  · intro hall
    rw [standsAlone, List.all_eq_true] at hall ⊢
    intro b hb
    rw [hblank, hall b hb, Bool.true_or]

theorem attachedCodes_eq_of_clear {source : Bytes}
    (h : ∀ c ∈ (LexedSource.ofSource source).comments, c.IsClear source) (first last : UInt32) :
    attachedCodes source isInlineBlank first last =
      attachedCodes source isIndentation first last := by
  refine congrArg _ (List.filter_congr fun c hc => ?_)
  rw [Comment.isAttachedTo, Comment.isAttachedTo, (h c hc).standsAlone_eq]

/-! ### Source texts -/

namespace ScannedSource

/-- The comments of a source text are in the order of their lines.  Every declaration has a header, and
has the codes that are attached to it, one comment after the other; this is so whether or not carriage
returns are blanks, unless one stands with nothing but blanks in front of a comment. -/
theorem ofSource_noqa_attached {source : Bytes} (hlines : source.count newline + 1 < 2 ^ 32) :
    ((LexedSource.ofSource source).comments.Pairwise fun b c =>
      b.offset + b.text.length ≤ c.offset ∧ b.position.line ≤ c.position.line) ∧
    ∀ d ∈ (ofSource source).declarations,
      (∃ first last, HasWindow (LexedSource.ofSource source).comments
        (LexedSource.ofSource source).tokens d first last) ∧
      ∀ first last, HasWindow (LexedSource.ofSource source).comments
          (LexedSource.ofSource source).tokens d first last →
        d.noqa = attachedCodes source isIndentation first last ∧
          ((∀ c ∈ (LexedSource.ofSource source).comments, c.IsClear source) →
            d.noqa = attachedCodes source isInlineBlank first last) := by
  refine ⟨List.pairwise_and_iff.2 ⟨LexedSource.comments_ordered source,
    LexedSource.comments_sorted hlines⟩, fun d hd => ⟨exists_window hd, fun first last h => ?_⟩⟩
  have hnoqa := h.noqa_eq_attachedCodes hlines
  exact ⟨hnoqa, fun hclear => hnoqa.trans (attachedCodes_eq_of_clear hclear first last).symm⟩

/-- Comments above a function, among its parameters and behind them; the lines end in carriage returns
and newlines. -/
def attachingSource : Bytes :=
  ascii "x # noqa: A\r\n# noqa: D\r\ndef f(a,\r\n  # noqa: X\r\n  b): # noqa: F\r\n  pass\r\n"

theorem ofSource_noqa_attached_attachingSource :
    (attachingSource.count newline + 1 < 2 ^ 32 ∧
      ∀ c ∈ (LexedSource.ofSource attachingSource).comments, c.IsClear attachingSource) ∧
    (ofSource attachingSource).declarations.map Declaration.noqa =
      [[ascii "A"], [ascii "D", ascii "F"]] ∧
    ∀ d ∈ (ofSource attachingSource).declarations, ∃ first last,
      HasWindow (LexedSource.ofSource attachingSource).comments
        (LexedSource.ofSource attachingSource).tokens d first last ∧
      d.noqa = attachedCodes attachingSource isInlineBlank first last := by
  have hlines : attachingSource.count newline + 1 < 2 ^ 32 := by cbv
  have hfronts : (LexedSource.ofSource attachingSource).comments.map
      (fun c => attachingSource.lineFront c.offset) =
        [ascii " x", [], ascii "  ", ascii " :)b  "] := by cbv
  have hclear : ∀ c ∈ (LexedSource.ofSource attachingSource).comments,
      c.IsClear attachingSource := by
    intro c hc _
    have hfront := List.mem_map_of_mem (f := fun c => attachingSource.lineFront c.offset) hc
    rw [hfronts] at hfront
    have hnone : ∀ front ∈ [ascii " x", [], ascii "  ", ascii " :)b  "],
        carriageReturn ∉ front := by decide
    exact hnone _ hfront
  refine ⟨⟨hlines, hclear⟩, by cbv, fun d hd => ?_⟩
  obtain ⟨⟨first, last, hwindow⟩, hnoqa⟩ := (ofSource_noqa_attached hlines).2 d hd
  exact ⟨first, last, hwindow, (hnoqa first last hwindow).2 hclear⟩

/-- A comment with a carriage return in front of it on the line above a function. -/
def returnSource : Bytes := ascii "import os\n\r# noqa: SS01\ndef f():\n    pass\n"

/-- The comment stands alone above the function, which has not its code. -/
theorem not_noqa_attached_returnSource :
    (returnSource.count newline + 1 < 2 ^ 32 ∧ (ofSource returnSource).isAccepted = true) ∧
    ¬ ∀ d ∈ (ofSource returnSource).declarations, ∀ first last,
      HasWindow (LexedSource.ofSource returnSource).comments
          (LexedSource.ofSource returnSource).tokens d first last →
        d.noqa = attachedCodes returnSource isInlineBlank first last := by
  refine ⟨⟨by cbv, by cbv⟩, fun hall => ?_⟩
  have hdeclarations : (ofSource returnSource).declarations.map
      (fun d => (d.form.kind, d.span.start.line, d.noqa)) =
        [(.moduleKind, 1, []), (.functionKind, 3, [])] := by cbv
  have hcomments : (LexedSource.ofSource returnSource).comments.map
      (fun c => (c.standsAlone returnSource isInlineBlank, returnSource.lineNumber c.offset,
        Noqa.codes c.text)) = [(true, 2, [ascii "SS01"])] := by cbv
  obtain ⟨f, hf, hfunction⟩ := List.mem_map.1 (hdeclarations ▸ List.mem_cons_of_mem _
    (List.mem_singleton_self (DeclarationKind.functionKind, (3 : UInt32), ([] : List Bytes))))
  obtain ⟨hkind, hline, hnoqa⟩ : f.form.kind = .functionKind ∧ f.span.start.line = 3 ∧
      f.noqa = [] := by simpa using hfunction
  obtain ⟨first, last, hwindow⟩ := exists_window hf
  have hfirst : first = 3 :=
    (hwindow.first_eq fun hfile => by rw [hfile] at hkind; cases hkind).trans hline
  obtain ⟨c, hc, hcomment⟩ := List.map_eq_singleton_iff.1 hcomments
  obtain ⟨halone, habove, hcodes⟩ : c.standsAlone returnSource isInlineBlank = true ∧
      returnSource.lineNumber c.offset = 2 ∧ Noqa.codes c.text = [ascii "SS01"] := by
    simpa using hcomment
  have hattached : c.isAttachedTo returnSource isInlineBlank 3 last = true := by
    rw [Comment.isAttachedTo, halone, habove]
    rfl
  have hnot := hall f hf first last hwindow
  rw [hnoqa, hfirst, attachedCodes, hc, List.filter_cons_of_pos hattached, List.filter_nil,
    List.flatMap_singleton, hcodes] at hnot
  cases hnot

end ScannedSource

end DocLint
