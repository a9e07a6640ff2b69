import DocLint.Proofs.Source.BlockStructure

/-!
# The text of tokens

What is written has bytes, and the marks of the layout have none, but for the newline.  A newline
token is the byte that ends its line, or stands at the end of the file.  So the tokens that have bytes
follow each other in the source text, and what is written behind a newline token stands on a lower
line.

* `LexItem.IsSpelled`, `ofSource_isSpelled`: which tokens have bytes, and how comments begin.
* `ofSource_endsLine`: where newline tokens stand.
* `Standing`, `ofSource_standing`: tokens that follow each other in a source text.
* `lineNumber`, `Position.line_after`: lines counted in the source text, and the lines of positions.
* `Standing.line_mono`, `Standing.line_lt`: the lines of tokens.
-/

namespace DocLint

open Bytes

/-! ### Which tokens have bytes -/

/-- What is written has bytes and the end of a block has none; a comment begins with its sign. -/
def LexItem.IsSpelled : LexItem → Prop
  | token t => (t.kind.isWritten = true → t.text ≠ []) ∧ (t.kind = .dedent → t.text = [])
  | comment c => c.text.head? = some (byte '#')
  | fault _ => True

theorem Bytes.head?_chomp {s : Bytes} {c : UInt8} (h : s.head? = some c) (hc : c ≠ carriageReturn) :
    (chomp s).head? = some c := by
  match s, h with
  | [d], h =>
      cases h
      have hlast : ¬ [c].getLast? = some carriageReturn := fun hlast => hc (Option.some.inj hlast)
      rw [chomp, if_neg hlast]
      rfl
  | d :: e :: r, h =>
      cases h
      unfold chomp
      split
      · rfl
      · rfl

namespace Lexer

variable {l : Lexer}

theorem comment_isSpelled {here : ByteCursor} (h : here.rest.head? = some (byte '#')) :
    (LexItem.comment here.comment).IsSpelled := by
  refine head?_chomp ?_ (by decide)
  obtain ⟨r, hrest⟩ := List.head?_eq_some_iff.1 h
  rw [hrest, commentLength, List.takeWhile_cons_of_pos (by decide)]
  rfl

theorem mark_isSpelled {here : ByteCursor} {kind : TokenKind} (h : kind.isWritten = false) :
    (LexItem.token (here.mark kind)).IsSpelled :=
  ⟨fun hwritten => absurd (h.symm.trans hwritten) Bool.false_ne_true, fun _ => rfl⟩

theorem optionalComment_isSpelled (here : ByteCursor) :
    ∀ item ∈ (optionalComment here).1, item.IsSpelled := by
  unfold optionalComment
  split
  next h =>
    intro item hitem
    rw [List.mem_singleton.1 hitem]
    exact comment_isSpelled h
  · simp

theorem layout_isSpelled (here : ByteCursor) (levels : List Nat) (width : Nat) :
    ∀ item ∈ (layout here levels width).1, item.IsSpelled := by
  unfold layout
  intro item hitem
  split at hitem
  · rw [List.mem_singleton.1 hitem]
    exact mark_isSpelled rfl
  · rcases List.mem_append.1 hitem with hitem | hitem
    · obtain ⟨_, -, rfl⟩ := List.mem_map.1 hitem
      exact mark_isSpelled rfl
    · split at hitem
      · cases hitem
      · rw [List.mem_singleton.1 hitem]
        exact trivial

theorem startLine_isSpelled : ∀ item ∈ l.startLine.1, item.IsSpelled := by
  have hcomments := optionalComment_isSpelled
    (l.cursor.skip (l.cursor.rest.takeWhile isIndentation).length)
  dsimp only [startLine]
  split
  · exact hcomments
  · split
    · exact hcomments
    · intro item hitem
      rcases List.mem_append.1 hitem with hitem | hitem
      · exact hcomments item hitem
      · exact layout_isSpelled _ _ _ item hitem

theorem finish_isSpelled (here : ByteCursor) : ∀ item ∈ (l.finish here).1, item.IsSpelled := by
  intro item hitem
  simp only [finish, List.mem_append] at hitem
  rcases hitem with ((hitem | hitem) | hitem) | hitem
  · split at hitem
    · rw [List.mem_singleton.1 hitem]
      exact trivial
    · cases hitem
  · split at hitem
    · rw [List.mem_singleton.1 hitem]
      exact mark_isSpelled rfl
    · cases hitem
  · obtain ⟨_, -, rfl⟩ := List.mem_map.1 hitem
    exact mark_isSpelled rfl
  · rw [List.mem_singleton.1 hitem]
    exact mark_isSpelled rfl

theorem endLine_isSpelled (here : ByteCursor) : ∀ item ∈ (l.endLine here).1, item.IsSpelled := by
  unfold endLine
  split
  · simp
  · split
    · intro item hitem
      rw [List.mem_singleton.1 hitem]
      exact ⟨nofun, nofun⟩
    · simp

theorem readLexeme_isSpelled {here : ByteCursor} {c : UInt8} {r : Bytes}
    (hrest : here.rest = c :: r) : ∀ item ∈ (l.readLexeme here c r).1, item.IsSpelled := by
  intro item hitem
  rcases List.mem_append.1 hitem with hitem | hitem
  · split at hitem
    · cases hitem
    · rw [List.mem_singleton.1 hitem]
      exact trivial
  · rw [List.mem_singleton.1 hitem]
    refine ⟨fun _ htext => ?_, fun hkind => ?_⟩
    · have hpos := Lexeme.length_pos c r
      rw [ByteCursor.token, hrest, List.take_eq_nil_iff] at htext
      exact htext.elim (Nat.ne_of_gt hpos) (List.cons_ne_nil c r)
    · exact absurd hkind (Arranged.ne_indent_dedent (Lexeme.first_isWrittenKind c r)).2

theorem resume_isSpelled : ∀ item ∈ l.resume.1, item.IsSpelled := by
  dsimp only [resume]
  split
  · exact finish_isSpelled _
  next c r hrest =>
    split
    next hc =>
      intro item hitem
      rw [List.mem_singleton.1 hitem]
      exact comment_isSpelled (by rw [hrest, hc]; rfl)
    · split
      · exact endLine_isSpelled _
      · exact readLexeme_isSpelled hrest

theorem step_isSpelled : ∀ item ∈ l.step.1, item.IsSpelled := by
  unfold step
  split
  · exact startLine_isSpelled
  · exact resume_isSpelled

theorem run_isSpelled : ∀ item ∈ l.run.1, item.IsSpelled := by
  fun_induction run l with
  | case1 l _ => simp
  | case2 l _ rest ih =>
      intro item hitem
      rcases List.mem_append.1 hitem with hitem | hitem
      · exact step_isSpelled item hitem
      · exact ih item hitem

end Lexer

/-- The tokens of a source text have bytes where something is written. -/
theorem LexedSource.ofSource_isSpelled (source : Bytes) :
    ∀ item ∈ (ofSource source).items, item.IsSpelled :=
  Lexer.run_isSpelled

/-! ### Which tokens end lines -/

/-- A newline token is the byte that ends the line, or stands at the end of the source text. -/
def Token.EndsLineOf (source : Bytes) (t : Token) : Prop :=
  t.kind = .newline → t.text = [newline] ∨ t.offset = source.length

namespace Lexer

variable {source : Bytes} {l : Lexer}

theorem startLine_endsLine {t : Token} (ht : LexItem.token t ∈ l.startLine.1) :
    t.EndsLineOf source := by
  have hcomments {here : ByteCursor} : LexItem.token t ∉ (optionalComment here).1 := by
    unfold optionalComment
    split
    · simp
    · simp
  have hlayout {here : ByteCursor} {levels : List Nat} {width : Nat}
      (h : LexItem.token t ∈ (layout here levels width).1) : t.kind ≠ .newline := by
    unfold layout at h
    split at h
    · cases List.mem_singleton.1 h
      simp [ByteCursor.mark]
    · rcases List.mem_append.1 h with h | h
      · obtain ⟨_, -, heq⟩ := List.mem_map.1 h
        cases heq
        simp [ByteCursor.mark]
      · split at h
        · cases h
        · cases List.mem_singleton.1 h
  dsimp only [startLine] at ht
  split at ht
  · exact absurd ht hcomments
  · split at ht
    · exact absurd ht hcomments
    · rcases List.mem_append.1 ht with ht | ht
      · exact absurd ht hcomments
      · exact fun hkind => absurd hkind (hlayout ht)

/-- The marks of the end of the text stand there. -/
theorem finish_offset {here : ByteCursor} {t : Token} (ht : LexItem.token t ∈ (l.finish here).1) :
    t.offset = here.offset := by
  simp only [finish, List.mem_append] at ht
  rcases ht with ((ht | ht) | ht) | ht
  · split at ht
    · cases List.mem_singleton.1 ht
    · cases ht
  · split at ht
    · cases List.mem_singleton.1 ht
      rfl
    · cases ht
  · obtain ⟨_, -, heq⟩ := List.mem_map.1 ht
    cases heq
    rfl
  · cases List.mem_singleton.1 ht
    rfl

theorem endLine_text {here : ByteCursor} {r : Bytes} (hrest : here.rest = newline :: r) {t : Token}
    (ht : LexItem.token t ∈ (l.endLine here).1) : t.text = [newline] := by
  unfold endLine at ht
  split at ht
  · cases ht
  · split at ht
    · cases List.mem_singleton.1 ht
      rw [ByteCursor.token, hrest]
      rfl
    · cases ht

theorem readLexeme_kind_ne {here : ByteCursor} {c : UInt8} {r : Bytes} {t : Token}
    (ht : LexItem.token t ∈ (l.readLexeme here c r).1) : t.kind ≠ .newline := by
  rcases List.mem_append.1 ht with ht | ht
  · split at ht
    · cases ht
    · cases List.mem_singleton.1 ht
  · cases List.mem_singleton.1 ht
    exact Lexeme.first_kind_ne_newline c r

theorem resume_endsLine (h : l.cursor.Within source) {t : Token}
    (ht : LexItem.token t ∈ l.resume.1) : t.EndsLineOf source := by
  have hhere := ByteCursor.within_skip (gapLength l.cursor.rest) h
  intro hkind
  dsimp only [resume] at ht
  split at ht
  next hrest =>
    obtain ⟨front, hsource, -, hoffset⟩ := hhere
    rw [hrest, List.append_nil] at hsource
    refine .inr ?_
    rw [finish_offset ht, hsource, ← hoffset]
  next c r hrest =>
    split at ht
    · cases List.mem_singleton.1 ht
    · split at ht
      next hc => exact .inl (endLine_text (hc ▸ hrest) ht)
      · exact absurd hkind (readLexeme_kind_ne ht)

theorem run_endsLine (h : l.cursor.Within source) {t : Token} (ht : LexItem.token t ∈ l.run.1) :
    t.EndsLineOf source := by
  fun_induction run l with
  | case1 l _ => cases ht
  | case2 l _ rest ih =>
      rcases List.mem_append.1 ht with ht | ht
      · unfold step at ht
        split at ht
        · exact startLine_endsLine ht
        · exact resume_endsLine h ht
      · exact ih (step_faithful h).1 ht

end Lexer

/-- A newline token of a source text ends a line of it, or stands at its end. -/
theorem LexedSource.ofSource_endsLine {source : Bytes} {t : Token}
    (ht : t ∈ (ofSource source).tokens) : t.EndsLineOf source :=
  Lexer.run_endsLine ⟨[], rfl, rfl, rfl⟩ (LexedSource.mem_tokens_iff.1 ht)

/-! ### Lines of a source text -/

namespace Bytes

/-- The line of an offset, the first one being 1. -/
def lineNumber (source : Bytes) (k : Nat) : Nat := 1 + (source.take k).count newline

theorem lineNumber_mono (source : Bytes) {j k : Nat} (h : j ≤ k) :
    source.lineNumber j ≤ source.lineNumber k :=
  Nat.add_le_add_left ((List.take_prefix_take_left (l := source) h).sublist.count_le newline) 1

theorem lineNumber_le (source : Bytes) (k : Nat) : source.lineNumber k ≤ 1 + source.count newline :=
  Nat.add_le_add_left ((List.take_sublist k source).count_le newline) 1

/-- A short source text has no more lines than can be counted in words. -/
theorem count_newline_lt {source : Bytes} (hsize : source.length < 2 ^ 31) :
    source.count newline + 1 < 2 ^ 32 := by
  have hcount := List.count_le_length (a := newline) (l := source)
  omega

end Bytes

/-- Where the lines can be counted in words, the position after a text is on the line of what follows
it. -/
theorem Position.line_after {source front behind : Bytes} (hsource : source = front ++ behind)
    (hlines : source.count newline + 1 < 2 ^ 32) :
    (after {} front).line.toNat = source.lineNumber front.length := by
  have hle := source.lineNumber_le front.length
  rw [lineNumber, hsource, List.take_left] at hle ⊢
  rw [after_eq_ofNat, UInt32.toNat_ofNat']
  rw [hsource] at hlines
  exact Nat.mod_eq_of_lt (by omega)

/-! ### Tokens that follow each other -/

/-- The tokens stand in the source text one behind the other, and what is written has bytes. -/
structure Standing (source : Bytes) (tokens : List Token) : Prop where
  stands : ∀ t ∈ tokens, t.StandsIn source
  spelled : ∀ t ∈ tokens, t.kind.isWritten = true → t.text ≠ []
  endsLine : ∀ t ∈ tokens, t.EndsLineOf source
  ordered : tokens.Pairwise fun t u => t.offset + t.text.length ≤ u.offset

/-- The tokens of a source text. -/
theorem LexedSource.ofSource_standing (source : Bytes) :
    Standing source (ofSource source).tokens where
  stands t ht := (ofSource_faithful source t (mem_tokens_iff.1 ht)).1
  spelled _ ht := (ofSource_isSpelled source _ (mem_tokens_iff.1 ht)).1
  endsLine _ ht := ofSource_endsLine ht
  ordered := pairwise_tokens source

namespace Standing

variable {source : Bytes} {tokens front behind : List Token}

theorem sublist (h : Standing source tokens) (hfront : front.Sublist tokens) :
    Standing source front where
  stands t ht := h.stands t (hfront.subset ht)
  spelled t ht := h.spelled t (hfront.subset ht)
  endsLine t ht := h.endsLine t (hfront.subset ht)
  ordered := h.ordered.sublist hfront

theorem left (h : Standing source (front ++ behind)) : Standing source front :=
  h.sublist (List.sublist_append_left front behind)

theorem right (h : Standing source (front ++ behind)) : Standing source behind :=
  h.sublist (List.sublist_append_right front behind)

theorem tail {t : Token} (h : Standing source (t :: tokens)) : Standing source tokens :=
  h.sublist (List.sublist_cons_self t tokens)

/-- The first token, with the others behind it. -/
theorem uncons {t : Token} (h : Standing source (t :: tokens)) : Standing source ([t] ++ tokens) := h

/-- A token ends before those behind it begin. -/
theorem stop_le (h : Standing source (front ++ behind)) {t u : Token} (ht : t ∈ front)
    (hu : u ∈ behind) : t.offset + t.text.length ≤ u.offset :=
  (List.pairwise_append.1 h.ordered).2.2 t ht u hu

section Lines

variable (hlines : source.count newline + 1 < 2 ^ 32)
include hlines

theorem line_eq (h : Standing source tokens) {t : Token} (ht : t ∈ tokens) :
    t.position.line.toNat = source.lineNumber t.offset := by
  obtain ⟨front, behind, hsource, hposition, hoffset⟩ := h.stands t ht
  rw [hposition, hoffset]
  exact Position.line_after hsource hlines

/-- A token stands on no lower line than those behind it. -/
theorem line_mono (h : Standing source (front ++ behind)) {t u : Token} (ht : t ∈ front)
    (hu : u ∈ behind) : t.position.line ≤ u.position.line := by
  rw [UInt32.le_iff_toNat_le, h.left.line_eq hlines ht, h.right.line_eq hlines hu]
  exact source.lineNumber_mono (Nat.le_trans (Nat.le_add_right _ _) (h.stop_le ht hu))

/-- A token ends on no higher line than the one on which it begins. -/
theorem line_le_stop (h : Standing source tokens) {t : Token} (ht : t ∈ tokens) :
    t.position.line ≤ t.stop.line := by
  obtain ⟨front, behind, hsource, hposition, hoffset⟩ := h.stands t ht
  rw [← List.append_assoc] at hsource
  have hstop := Position.line_after hsource hlines
  rw [Position.after_append, ← hposition, List.length_append, ← hoffset] at hstop
  rw [UInt32.le_iff_toNat_le, h.line_eq hlines ht, Token.stop, hstop]
  exact source.lineNumber_mono (Nat.le_add_right _ _)

end Lines

variable (hsize : source.length < 2 ^ 31)
include hsize

/-- A token stands on no lower line than those behind it. -/
theorem line_le (h : Standing source (front ++ behind)) {t u : Token} (ht : t ∈ front)
    (hu : u ∈ behind) : t.position.line ≤ u.position.line :=
  h.line_mono (count_newline_lt hsize) ht hu

/-- What is written behind a newline token stands on a lower line. -/
theorem line_lt (h : Standing source (front ++ behind)) {t u : Token} (ht : t ∈ front)
    (hu : u ∈ behind) (hnewline : t.kind = .newline) (hwritten : u.kind.isWritten = true) :
    t.position.line < u.position.line := by
  have hle := h.stop_le ht hu
  rcases h.left.endsLine t ht hnewline with htext | hend
  · rw [htext] at hle
    have hcount : (source.take (t.offset + 1)).count newline =
        (source.take t.offset).count newline + 1 := by
      obtain ⟨above, below, hsource, -, hoffset⟩ := h.left.stands t ht
      rw [hoffset, hsource, htext, List.take_left, ← List.append_assoc,
        List.take_left' (by rw [List.length_append]; rfl), List.count_append]
      rfl
    have hbehind := (List.take_prefix_take_left (l := source) hle).sublist.count_le newline
    have hlines := count_newline_lt hsize
    rw [UInt32.lt_iff_toNat_lt, h.left.line_eq hlines ht, h.right.line_eq hlines hu, lineNumber,
      lineNumber]
    rw [List.length_singleton, hcount] at hbehind
    omega
  · -- Nothing is written behind the end of the source text.
    obtain ⟨above, below, hsource, -, hoffset⟩ := h.right.stands u hu
    have hpos := List.length_pos_iff.2 (h.right.spelled u hu hwritten)
    have hlength := congrArg List.length hsource
    rw [List.length_append, List.length_append] at hlength
    omega

end Standing

end DocLint
