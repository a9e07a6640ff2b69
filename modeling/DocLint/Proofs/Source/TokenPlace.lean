import DocLint.Proofs.Source.StringLiteral
import DocLint.Source.Lexer

/-!
# Where tokens stand

The cursor of the lexer stands between what has been read and what is still to be read, and knows
the position after the former.  So every token is part of the source text, at its own position.

* `Within`: the invariant of the cursor; `within_skip`: reading keeps it.
* `step_faithful`, `run_faithful`: the tokens of a step and of a run stand in the source text, and a
  string token that is not closed is reported.
* `string_isWritten`: a string token that is not reported is a closed literal.
-/

namespace DocLint

open Bytes

/-- The cursor stands in the source text, at the position after all that is in front of it. -/
def ByteCursor.Within (source : Bytes) (cursor : ByteCursor) : Prop :=
  ∃ front, source = front ++ cursor.rest ∧ cursor.position = Position.after {} front ∧
    cursor.offset = front.length

/-- The token is part of the source text, at its position and offset. -/
def Token.StandsIn (source : Bytes) (t : Token) : Prop :=
  ∃ front behind, source = front ++ (t.text ++ behind) ∧ t.position = Position.after {} front ∧
    t.offset = front.length

/-- The tokens among the items stand in the source text; those of strings are closed, or reported
among the items. -/
def Faithful (source : Bytes) (items : List LexItem) : Prop :=
  ∀ t, LexItem.token t ∈ items → t.StandsIn source ∧
    (t.kind = .string → LexItem.fault ⟨t.position, .unterminatedString⟩ ∈ items ∨
      ∃ mark delimiter body, IsWritten t.text mark delimiter body)

namespace Faithful

variable {source : Bytes} {items more : List LexItem}

theorem append (h : Faithful source items) (hmore : Faithful source more) :
    Faithful source (items ++ more) := by
  intro t ht
  rcases List.mem_append.1 ht with ht | ht
  · obtain ⟨hstands, hstring⟩ := h t ht
    exact ⟨hstands, fun hkind => (hstring hkind).imp_left (List.mem_append_left more)⟩
  · obtain ⟨hstands, hstring⟩ := hmore t ht
    exact ⟨hstands, fun hkind => (hstring hkind).imp_left (List.mem_append_right items)⟩

theorem of_no_token (h : ∀ t, LexItem.token t ∉ items) : Faithful source items :=
  fun t ht => absurd ht (h t)

end Faithful

namespace ByteCursor

variable {source : Bytes} {cursor : ByteCursor}

theorem within_step {c : UInt8} {r : Bytes} (h : cursor.Within source) (hrest : cursor.rest = c :: r) :
    (cursor.step c r).Within source := by
  obtain ⟨front, hsource, hposition, hoffset⟩ := h
  refine ⟨front ++ [c], ?_, ?_, ?_⟩
  · rw [hsource, hrest]
    simp [step]
  · rw [step, hposition, Position.after_append]
    rfl
  · rw [step, hoffset, List.length_append]
    rfl

/-- Reading keeps the cursor in the source text. -/
theorem within_skip (n : Nat) (h : cursor.Within source) : (cursor.skip n).Within source := by
  induction n generalizing cursor with
  | zero => exact h
  | succ n ih =>
      unfold skip
      split
      · exact h
      next c r hrest => exact ih (within_step h hrest)

theorem token_standsIn (h : cursor.Within source) (kind : TokenKind) (n : Nat) :
    (cursor.token kind n).StandsIn source := by
  obtain ⟨front, hsource, hposition, hoffset⟩ := h
  refine ⟨front, cursor.rest.drop n, ?_, hposition, hoffset⟩
  rw [hsource, token, List.take_append_drop]

/-- Marks of the layout have no text. -/
theorem faithful_mark (h : cursor.Within source) {kind : TokenKind} (hkind : kind ≠ .string) :
    Faithful source [.token (cursor.mark kind)] := by
  obtain ⟨front, hsource, hposition, hoffset⟩ := h
  intro t ht
  cases List.mem_singleton.1 ht
  exact ⟨⟨front, cursor.rest, hsource, hposition, hoffset⟩, fun h => absurd h hkind⟩

end ByteCursor

namespace Lexer

variable {source : Bytes}

theorem faithful_marks {cursor : ByteCursor} (h : cursor.Within source) {α : Type} {kind : TokenKind}
    (hkind : kind ≠ .string) (levels : List α) :
    Faithful source (levels.map fun _ => .token (cursor.mark kind)) := by
  induction levels with
  | nil => exact .of_no_token (by simp)
  | cons level levels ih => exact (ByteCursor.faithful_mark h hkind).append ih

theorem layout_faithful {cursor : ByteCursor} (h : cursor.Within source) (levels : List Nat)
    (width : Nat) : Faithful source (layout cursor levels width).1 := by
  unfold layout
  split
  · exact ByteCursor.faithful_mark h (by simp)
  · refine (faithful_marks h (by simp) _).append (.of_no_token ?_)
    intro t
    split
    · simp
    · simp

theorem optionalComment_within {cursor : ByteCursor} (h : cursor.Within source) :
    (optionalComment cursor).2.Within source ∧ Faithful source (optionalComment cursor).1 := by
  unfold optionalComment
  split
  · exact ⟨ByteCursor.within_skip _ h, .of_no_token (by simp)⟩
  · exact ⟨h, .of_no_token (by simp)⟩

theorem optionalReturn_within {cursor : ByteCursor} (h : cursor.Within source) :
    (optionalReturn cursor).Within source := by
  unfold optionalReturn
  split
  · exact ByteCursor.within_skip 1 h
  · exact h

theorem startLine_faithful {l : Lexer} (h : l.cursor.Within source) :
    l.startLine.2.cursor.Within source ∧ Faithful source l.startLine.1 := by
  obtain ⟨hbehind, hcomments⟩ := optionalComment_within
    (ByteCursor.within_skip (l.cursor.rest.takeWhile isIndentation).length h)
  have hhere := optionalReturn_within hbehind
  dsimp only [startLine]
  split
  · exact ⟨hhere, hcomments⟩
  · split
    · exact ⟨ByteCursor.within_skip 1 hhere, hcomments⟩
    · exact ⟨hhere, hcomments.append (layout_faithful hhere _ _)⟩

theorem finish_faithful (l : Lexer) {here : ByteCursor} (h : here.Within source) :
    (l.finish here).2.cursor.Within source ∧ Faithful source (l.finish here).1 := by
  refine ⟨h, ?_⟩
  unfold finish
  dsimp only
  refine .append (.append (.append (.of_no_token ?_) ?_) (faithful_marks h (by simp) _))
    (ByteCursor.faithful_mark h (by simp))
  · intro t
    split
    · simp
    · simp
  · split
    · exact ByteCursor.faithful_mark h (by simp)
    · exact .of_no_token (by simp)

theorem endLine_faithful (l : Lexer) {here : ByteCursor} (h : here.Within source) :
    (l.endLine here).2.cursor.Within source ∧ Faithful source (l.endLine here).1 := by
  have hskip := ByteCursor.within_skip 1 h
  unfold endLine
  split
  · exact ⟨hskip, .of_no_token (by simp)⟩
  · split
    · refine ⟨hskip, fun t ht => ?_⟩
      cases List.mem_singleton.1 ht
      exact ⟨ByteCursor.token_standsIn h .newline 1, fun hkind => by cases hkind⟩
    · exact ⟨hskip, .of_no_token (by simp)⟩

/-- A lexeme that is a string is closed, or its fault comes first. -/
theorem readLexeme_faithful (l : Lexer) {here : ByteCursor} (h : here.Within source) {c : UInt8}
    {r : Bytes} (hrest : here.rest = c :: r) :
    (l.readLexeme here c r).2.cursor.Within source ∧
      Faithful source (l.readLexeme here c r).1 := by
  refine ⟨ByteCursor.within_skip _ h, fun t ht => ?_⟩
  unfold readLexeme at ht ⊢
  dsimp only at ht ⊢
  have htoken : t = here.token (Lexeme.first c r).kind (Lexeme.first c r).length := by
    rcases List.mem_append.1 ht with ht | ht
    · split at ht
      · simp at ht
      · simp at ht
    · exact LexItem.token.inj (List.mem_singleton.1 ht)
  subst htoken
  refine ⟨ByteCursor.token_standsIn h _ _, fun hkind => ?_⟩
  -- The fault stands right before the token that it is about.
  rcases Lexeme.first_isWritten hkind with hcause | hwritten
  · refine .inl (List.mem_append_left _ ?_)
    rw [hcause]
    exact List.mem_singleton_self _
  · refine .inr ?_
    rw [ByteCursor.token, hrest]
    exact hwritten

theorem resume_faithful {l : Lexer} (h : l.cursor.Within source) :
    l.resume.2.cursor.Within source ∧ Faithful source l.resume.1 := by
  have hhere := ByteCursor.within_skip (gapLength l.cursor.rest) h
  dsimp only [resume]
  split
  · exact finish_faithful l hhere
  next c r hrest =>
    split
    · exact ⟨ByteCursor.within_skip _ hhere, .of_no_token (by simp)⟩
    · split
      · exact endLine_faithful l hhere
      · exact readLexeme_faithful l hhere hrest

/-- A step keeps the cursor in the source text, and so do its tokens stand there. -/
theorem step_faithful {l : Lexer} (h : l.cursor.Within source) :
    l.step.2.cursor.Within source ∧ Faithful source l.step.1 := by
  unfold step
  split
  · exact startLine_faithful h
  · exact resume_faithful h

/-- The tokens of a run stand in the source text. -/
theorem run_faithful {l : Lexer} (h : l.cursor.Within source) : Faithful source l.run.1 := by
  fun_induction run l with
  | case1 l _ => exact .of_no_token (by simp)
  | case2 l _ rest ih =>
      obtain ⟨hcursor, hitems⟩ := step_faithful h
      exact hitems.append (ih hcursor)

end Lexer

namespace LexedSource

/-- The tokens of a source text stand in it, and a string token is closed or reported. -/
theorem ofSource_faithful (source : Bytes) : Faithful source (ofSource source).items :=
  Lexer.run_faithful ⟨[], rfl, rfl, rfl⟩

theorem mem_tokens_iff {s : LexedSource} {t : Token} :
    t ∈ s.tokens ↔ LexItem.token t ∈ s.items := by
  rw [tokens, List.mem_filterMap]
  constructor
  · rintro ⟨item, hitem, htoken⟩
    cases item with
    | token t' => cases htoken; exact hitem
    | comment c => cases htoken
    | fault f => cases htoken
  · exact fun h => ⟨_, h, rfl⟩

theorem mem_faults_iff {s : LexedSource} {f : Fault} :
    f ∈ s.faults ↔ LexItem.fault f ∈ s.items := by
  rw [faults, List.mem_filterMap]
  constructor
  · rintro ⟨item, hitem, hfault⟩
    cases item with
    | token t => cases hfault
    | comment c => cases hfault
    | fault f' => cases hfault; exact hitem
  · exact fun h => ⟨_, h, rfl⟩

/-- A string token that is not reported is a closed literal, and stands in the source text. -/
theorem string_isWritten {source : Bytes} {t : Token} (ht : t ∈ (ofSource source).tokens)
    (hkind : t.kind = .string)
    (hclosed : ⟨t.position, .unterminatedString⟩ ∉ (ofSource source).faults) :
    t.StandsIn source ∧ ∃ mark delimiter body, IsWritten t.text mark delimiter body := by
  obtain ⟨hstands, hstring⟩ := ofSource_faithful source t (mem_tokens_iff.1 ht)
  rcases hstring hkind with hfault | hwritten
  · exact absurd (mem_faults_iff.2 hfault) hclosed
  · exact ⟨hstands, hwritten⟩

end LexedSource

end DocLint
