import DocLint.Proofs.Concatenation.Lexemes
import DocLint.Proofs.Concatenation.Lowering
import DocLint.Proofs.Source.BlockStructure

/-!
# Lexing one text in front of another

A text that ends with a newline which nothing hides is read in the same way whatever comes behind it,
up to its end.

* `Terminated`, `Approaches`: the lexer is in front of that newline, or right behind it.
* `step_readsAlike`: in front of the end a step yields the same.
* `run_extend`: so does a run, up to the lexer at the seam.
-/

namespace DocLint

open Bytes

namespace ByteCursor

/-- The same place in a text that goes on behind its end. -/
def extend (behind : Bytes) (c : ByteCursor) : ByteCursor := { c with rest := c.rest ++ behind }

/-- The text ahead ends with a newline, and nothing hides it. -/
def Terminated (c : ByteCursor) : Prop := ∃ s, c.rest = s ++ [newline] ∧ EndsLine s

/-- How far the text reaches. -/
def reach (c : ByteCursor) : Nat := c.offset + c.rest.length

variable {c : ByteCursor} {n : Nat} (behind : Bytes)

@[simp] theorem reach_skip (n : Nat) (c : ByteCursor) : (c.skip n).reach = c.reach := by
  induction n generalizing c with
  | zero => rfl
  | succ n ih =>
      unfold skip
      split
      · rfl
      next d r hrest =>
        rw [ih, reach, reach, hrest, step, List.length_cons]
        exact Nat.add_right_comm _ _ _

theorem skip_extend (h : n ≤ c.rest.length) :
    (c.extend behind).skip n = (c.skip n).extend behind := by
  induction n generalizing c with
  | zero => rfl
  | succ n ih =>
      cases hrest : c.rest with
      | nil => simp [hrest] at h
      | cons d r =>
          rw [hrest] at h
          have hstep := ih (c := c.step d r) (Nat.le_of_succ_le_succ h)
          have hrest' : (c.extend behind).rest = d :: (r ++ behind) := by rw [extend, hrest]; rfl
          rw [skip, skip, hrest, hrest']
          exact hstep

theorem token_extend (h : n ≤ c.rest.length) (kind : TokenKind) :
    (c.extend behind).token kind n = c.token kind n := by
  rw [token, token, extend, List.take_append_of_le_length h]

namespace Terminated

theorem rest_ne_nil (h : c.Terminated) : c.rest ≠ [] := by
  obtain ⟨s, hs, -⟩ := h
  rw [hs]
  exact List.append_ne_nil_of_right_ne_nil s (List.cons_ne_nil _ _)

theorem skip (h : c.Terminated) (hn : n < c.rest.length) : (c.skip n).Terminated := by
  obtain ⟨s, hs, hends⟩ := h
  rw [hs, List.length_append, List.length_singleton] at hn
  refine ⟨s.drop n, ?_, hends.of_suffix (List.drop_suffix n s)⟩
  rw [rest_skip, hs, List.drop_append_of_le_length (Nat.le_of_lt_succ hn)]

/-- Behind a newline either another one is ahead, or nothing. -/
theorem skip_one (h : c.Terminated) : (c.skip 1).Terminated ∨ (c.skip 1).rest = [] := by
  by_cases hlength : 1 < c.rest.length
  · exact .inl (h.skip hlength)
  · refine .inr ?_
    rw [rest_skip]
    exact List.drop_eq_nil_of_le (Nat.not_lt.1 hlength)

end Terminated

/-- A place in front of a byte that the newline at the end does not hide. -/
theorem Terminated.exists_rest (h : c.Terminated) :
    ∃ d r, c.rest = d :: r ∧ (c.extend behind).rest = d :: (r ++ behind) := by
  obtain ⟨d, r, hrest⟩ := List.exists_cons_of_ne_nil h.rest_ne_nil
  exact ⟨d, r, hrest, by rw [extend, hrest]; rfl⟩

/-- The comment ahead, and the place behind it. -/
theorem Terminated.comment_extend (h : c.Terminated) :
    (c.extend behind).comment = c.comment ∧
      commentLength (c.extend behind).rest = commentLength c.rest ∧
      commentLength c.rest < c.rest.length := by
  obtain ⟨s, hs, -⟩ := h
  have hlength : commentLength (c.extend behind).rest = commentLength c.rest := by
    rw [extend, hs, List.append_assoc]
    exact (commentLength_newline behind s).trans (commentLength_newline [] s).symm
  have hlt : commentLength c.rest < c.rest.length := by
    rw [hs, commentLength_newline, List.length_append]
    exact Nat.lt_succ_of_le (List.takeWhile_prefix _).length_le
  refine ⟨?_, hlength, hlt⟩
  rw [comment, comment, hlength]
  simp only [extend, List.take_append_of_le_length (Nat.le_of_lt hlt)]

end ByteCursor

open ByteCursor TokenStream

namespace Lexer

variable {l : Lexer} {c : ByteCursor} (behind : Bytes)

/-! ### The text in front -/

/-- The same lexer in a text that goes on behind its end. -/
def extend (behind : Bytes) (l : Lexer) : Lexer := { l with cursor := l.cursor.extend behind }

theorem optionalComment_extend (h : c.Terminated) :
    optionalComment (c.extend behind) =
        ((optionalComment c).1, (optionalComment c).2.extend behind) ∧
      (optionalComment c).2.Terminated ∧ (optionalComment c).2.reach = c.reach := by
  obtain ⟨d, r, hrest, hrest'⟩ := h.exists_rest behind
  obtain ⟨hcomment, hlength, hlt⟩ := h.comment_extend behind
  have hhead : (c.extend behind).rest.head? = c.rest.head? := by rw [hrest, hrest']; rfl
  unfold optionalComment
  rw [hhead, hcomment, hlength]
  split
  · exact ⟨by rw [skip_extend behind (Nat.le_of_lt hlt)], h.skip hlt, reach_skip _ _⟩
  · exact ⟨rfl, h, rfl⟩

theorem optionalReturn_extend (h : c.Terminated) :
    optionalReturn (c.extend behind) = (optionalReturn c).extend behind ∧
      (optionalReturn c).Terminated ∧ (optionalReturn c).reach = c.reach := by
  obtain ⟨d, r, hrest, hrest'⟩ := h.exists_rest behind
  have hhead : (c.extend behind).rest.head? = c.rest.head? := by rw [hrest, hrest']; rfl
  unfold optionalReturn
  rw [hhead]
  split
  next hreturn =>
    -- A return is not the newline at the end, so something is behind it.
    have hlt : 1 < c.rest.length := by
      obtain ⟨s, hs, -⟩ := h
      rw [hs, List.length_append, List.length_singleton]
      cases s with
      | nil =>
          rw [hs] at hreturn
          exact absurd hreturn (by decide)
      | cons _ _ => simp
    exact ⟨skip_extend behind (Nat.le_of_lt hlt), h.skip hlt, reach_skip _ _⟩
  · exact ⟨rfl, h, rfl⟩

/-- What may be known of a lexer in front of the end of the text: it is in front of the last newline,
or behind it, at the beginning of a line unless a bracket is open. -/
def Approaches (l : Lexer) : Prop :=
  l.cursor.Terminated ∨ l.cursor.rest = [] ∧ l.cursor.blankLine = true ∧
    (0 < l.depth ∨ l.lineStart = true)

/-- What a lexer reads is the same in a text that goes on, and reaches at most to the end. -/
structure ReadsAlike (behind : Bytes) (l : Lexer) (read read' : List LexItem × Lexer) : Prop where
  read_eq : read' = (read.1, read.2.extend behind)
  approaches : read.2.Approaches
  finished_eq : read.2.finished = l.finished
  reach_eq : read.2.cursor.reach = l.cursor.reach
  offset_lt : ∀ t, .token t ∈ read.1 → t.offset < l.cursor.reach

theorem offset_lt_reach (h : c.Terminated) : c.offset < c.reach :=
  Nat.lt_add_of_pos_right (List.length_pos_iff.2 h.rest_ne_nil)

theorem layout_offset (cursor : ByteCursor) (levels : List Nat) (width : Nat) {t : Token}
    (h : .token t ∈ (layout cursor levels width).1) : t.offset = cursor.offset := by
  unfold layout at h
  split at h
  · cases List.mem_singleton.1 h
    rfl
  · rcases List.mem_append.1 h with h | h
    · obtain ⟨_, -, htoken⟩ := List.mem_map.1 h
      cases htoken
      rfl
    · split at h
      · cases h
      · cases List.mem_singleton.1 h

theorem optionalComment_no_token (cursor : ByteCursor) (t : Token) :
    .token t ∉ (optionalComment cursor).1 := by
  unfold optionalComment
  split
  · simp
  · simp

/-- Behind a newline the lexer approaches the end, or is there. -/
theorem approaches_skip_one (h : c.Terminated) (hnewline : c.rest.head? = some newline)
    (hl : l.cursor = c.skip 1) (hstart : 0 < l.depth ∨ l.lineStart = true) : l.Approaches := by
  rcases h.skip_one with hahead | hend
  · exact .inl (hl ▸ hahead)
  · refine .inr ⟨hl ▸ hend, ?_, hstart⟩
    obtain ⟨d, r, hrest⟩ := List.exists_cons_of_ne_nil h.rest_ne_nil
    rw [hrest] at hnewline
    cases hnewline
    rw [hl, skip, hrest]
    rfl

theorem startLine_readsAlike (h : l.cursor.Terminated) (hstart : l.lineStart = true) :
    ReadsAlike behind l l.startLine (l.extend behind).startLine := by
  have hindentation : (l.extend behind).cursor.rest.takeWhile isIndentation =
        l.cursor.rest.takeWhile isIndentation ∧
      (l.cursor.rest.takeWhile isIndentation).length < l.cursor.rest.length := by
    obtain ⟨s, hs, -⟩ := id h
    have hp : isIndentation newline = false := by decide
    rw [Lexer.extend, ByteCursor.extend, hs, List.append_assoc]
    refine ⟨(takeWhile_newline behind hp s).trans (takeWhile_newline [] hp s).symm, ?_⟩
    rw [takeWhile_newline [] hp, List.length_append]
    exact Nat.lt_succ_of_le (List.takeWhile_prefix _).length_le
  obtain ⟨hsame, hlt⟩ := hindentation
  have hskip := skip_extend behind (Nat.le_of_lt hlt)
  obtain ⟨hcomment, hterminated, hreach⟩ := optionalComment_extend behind (h.skip hlt)
  have hno := optionalComment_no_token
    (l.cursor.skip (l.cursor.rest.takeWhile isIndentation).length)
  unfold startLine
  dsimp only
  rw [hsame, show (l.extend behind).cursor = l.cursor.extend behind from rfl, hskip, hcomment]
  generalize optionalComment (l.cursor.skip _) = before at hterminated hreach hno ⊢
  obtain ⟨hreturn, hhere, hreach'⟩ := optionalReturn_extend behind hterminated
  rw [hreturn]
  generalize optionalReturn before.2 = here at hhere hreach' ⊢
  have htotal : here.reach = l.cursor.reach := by rw [hreach', hreach, reach_skip]
  obtain ⟨d, r, hrest, hrest'⟩ := hhere.exists_rest behind
  rw [hrest, hrest']
  dsimp only
  split
  next hd =>
    subst hd
    have hone : 1 ≤ here.rest.length := by simp [hrest]
    refine ⟨?_, ?_, rfl, ?_, fun t ht => absurd ht (hno t)⟩
    · rw [skip_extend behind hone]
      rfl
    · exact approaches_skip_one hhere (by simp [hrest]) rfl (.inr hstart)
    · exact (reach_skip 1 here).trans htotal
  next hd =>
    refine ⟨rfl, .inl hhere, rfl, htotal, fun t ht => ?_⟩
    rcases List.mem_append.1 ht with ht | ht
    · exact absurd ht (hno t)
    · rw [layout_offset _ _ _ ht, ← htotal]
      exact offset_lt_reach hhere

/-- Nothing is reported. -/
def IsFaultless (items : List LexItem) : Prop := ∀ f, .fault f ∉ items

section Line

variable {d : UInt8} {r : Bytes} (h : c.Terminated) (htotal : c.reach = l.cursor.reach)
include h htotal

theorem endLine_readsAlike (hrest : c.rest = newline :: r) :
    ReadsAlike behind l (l.endLine c) ((l.extend behind).endLine (c.extend behind)) := by
  have hhead : c.rest.head? = some newline := by rw [hrest]; rfl
  have hone : 1 ≤ c.rest.length := by simp [hrest]
  have hreach := (reach_skip 1 c).trans htotal
  unfold endLine
  rw [skip_extend behind hone, token_extend behind hone]
  show ReadsAlike behind l _ (if 0 < l.depth then _ else if l.lineOpen = true then _ else _)
  split
  next hdepth =>
    exact ⟨rfl, approaches_skip_one h hhead rfl (.inl hdepth), rfl, hreach, by simp⟩
  · split
    · refine ⟨rfl, approaches_skip_one h hhead rfl (.inr rfl), rfl, hreach, fun t ht => ?_⟩
      cases List.mem_singleton.1 ht
      exact htotal ▸ offset_lt_reach h
    · exact ⟨rfl, approaches_skip_one h hhead rfl (.inr rfl), rfl, hreach, by simp⟩

theorem readLexeme_readsAlike (hrest : c.rest = d :: r) (hd : d ≠ newline)
    (hfaultless : IsFaultless (l.readLexeme c d r).1) :
    ReadsAlike behind l (l.readLexeme c d r)
      ((l.extend behind).readLexeme (c.extend behind) d (r ++ behind)) := by
  obtain ⟨s, rfl⟩ : ∃ s, r = s ++ [newline] := by
    obtain ⟨front, hfront, -⟩ := id h
    rw [hfront] at hrest
    cases front with
    | nil => exact absurd (List.cons.inj hrest).1.symm hd
    | cons e front => exact ⟨front, (List.cons.inj hrest).2.symm⟩
  have hcause : (Lexeme.first d (s ++ [newline])).cause = none := by
    cases hcause : (Lexeme.first d (s ++ [newline])).cause with
    | none => rfl
    | some cause =>
        refine absurd ?_ (hfaultless ⟨c.position, cause⟩)
        simp [readLexeme, hcause]
  have hsame := Lexeme.first_newline behind hcause
  have hlt : (Lexeme.first d (s ++ [newline])).length < c.rest.length := by
    rw [hrest, ← List.cons_append, List.length_append]
    exact Nat.lt_succ_of_le (Lexeme.length_first_newline hcause)
  have hle := Nat.le_of_lt hlt
  rw [List.append_assoc, List.singleton_append]
  unfold readLexeme
  dsimp only
  rw [hsame, hcause, skip_extend behind hle, token_extend behind hle]
  refine ⟨rfl, .inl (h.skip hlt), rfl, (reach_skip _ c).trans htotal, fun t ht => ?_⟩
  cases List.mem_singleton.1 ht
  exact htotal ▸ offset_lt_reach h

end Line

theorem resume_readsAlike (h : l.cursor.Terminated) (hfaultless : IsFaultless l.resume.1) :
    ReadsAlike behind l l.resume (l.extend behind).resume := by
  have hgap : gapLength (l.cursor.extend behind).rest = gapLength l.cursor.rest ∧
      gapLength l.cursor.rest < l.cursor.rest.length := by
    obtain ⟨s, hs, hends⟩ := id h
    rw [ByteCursor.extend, hs, List.append_assoc]
    refine ⟨(gapLength_newline behind hends).trans (gapLength_newline [] hends).symm, ?_⟩
    rw [gapLength_newline [] hends, List.length_append]
    exact Nat.lt_succ_of_le (gapLength_le s)
  obtain ⟨hsame, hlt⟩ := hgap
  have hskip := skip_extend behind (Nat.le_of_lt hlt)
  have hhere := h.skip hlt
  have htotal := reach_skip (gapLength l.cursor.rest) l.cursor
  unfold resume at hfaultless ⊢
  dsimp only at hfaultless ⊢
  rw [show (l.extend behind).cursor = l.cursor.extend behind from rfl, hsame, hskip]
  generalize l.cursor.skip (gapLength l.cursor.rest) = here at hhere htotal hfaultless ⊢
  obtain ⟨d, r, hrest, hrest'⟩ := hhere.exists_rest behind
  rw [hrest] at hfaultless
  rw [hrest, hrest']
  dsimp only at hfaultless ⊢
  by_cases hmark : d = byte '#'
  · obtain ⟨hcomment, hlength, hbefore⟩ := hhere.comment_extend behind
    rw [hrest, hrest'] at hlength
    rw [hrest] at hbefore
    rw [if_pos hmark, if_pos hmark, hcomment, hlength,
      skip_extend behind (by rw [hrest]; exact Nat.le_of_lt hbefore)]
    refine ⟨rfl, .inl (hhere.skip (by rwa [hrest])), rfl, (reach_skip _ here).trans htotal, ?_⟩
    simp
  · rw [if_neg hmark] at hfaultless
    rw [if_neg hmark, if_neg hmark]
    by_cases hd : d = newline
    · rw [if_pos hd, if_pos hd]
      exact endLine_readsAlike behind hhere htotal (hd ▸ hrest)
    · rw [if_neg hd] at hfaultless
      rw [if_neg hd, if_neg hd]
      exact readLexeme_readsAlike behind hhere htotal hrest hd hfaultless

/-- In front of the end a step is the same in a text that goes on. -/
theorem step_readsAlike (h : l.cursor.Terminated) (hfaultless : IsFaultless l.step.1) :
    ReadsAlike behind l l.step (l.extend behind).step := by
  have hsame : (l.extend behind).step =
      if (l.lineStart && l.depth == 0) = true then (l.extend behind).startLine
      else (l.extend behind).resume := rfl
  rw [hsame]
  unfold step at hfaultless ⊢
  split
  next hstart =>
    rw [Bool.and_eq_true] at hstart
    exact startLine_readsAlike behind h hstart.1
  next hstart =>
    rw [if_neg hstart] at hfaultless
    exact resume_readsAlike behind h hfaultless

/-! ### The end of the text in front -/

/-- Every level of indentation is a step to the right. -/
theorem step_levels_pos (h : ∀ level ∈ l.levels, 0 < level) :
    ∀ level ∈ l.step.2.levels, 0 < level := by
  have hlayout (cursor : ByteCursor) (width : Nat) :
      ∀ level ∈ (layout cursor l.levels width).2, 0 < level := by
    unfold layout
    split
    next hdeeper =>
      intro level hlevel
      rcases List.mem_cons.1 hlevel with rfl | hlevel
      · exact Nat.zero_lt_of_lt hdeeper
      · exact h level hlevel
    · exact fun level hlevel => h level ((List.dropWhile_suffix _).subset hlevel)
  unfold step
  split
  · unfold startLine
    dsimp only
    split
    · exact h
    · split
      · exact h
      · exact hlayout _ _
  · unfold resume
    dsimp only
    split
    · exact fun level hlevel => by cases hlevel
    · split
      · exact h
      · split
        · unfold endLine
          split
          · exact h
          · split
            · exact h
            · exact h
        · exact h

/-- The lexer is behind all lines of the text, and outside brackets. -/
structure AtSeam (l : Lexer) : Prop where
  rest_eq : l.cursor.rest = []
  blankLine_eq : l.cursor.blankLine = true
  lineStart_eq : l.lineStart = true
  depth_eq : l.depth = 0
  lineOpen_eq : l.lineOpen = false
  finished_eq : l.finished = false
  levels_pos : ∀ level ∈ l.levels, 0 < level

/-- Where an open bracket is left at the end of the text, it is reported. -/
theorem depth_eq_zero (hrest : l.cursor.rest = []) (running : l.finished = false)
    (hfaultless : IsFaultless l.run.1) : l.depth = 0 := by
  by_contra hdepth
  have hmiddle : ¬ (l.lineStart && l.depth == 0) = true := by simp [hdepth]
  have hgap : (l.cursor.skip (gapLength l.cursor.rest)).rest = [] := by
    rw [rest_skip, hrest, List.drop_nil]
  refine hfaultless ⟨(l.cursor.skip (gapLength l.cursor.rest)).position, .openBracket⟩ ?_
  rw [run, if_neg (by simp [running]), step, if_neg hmiddle, resume, hgap]
  refine List.mem_append_left _ ?_
  simp [finish, Nat.pos_of_ne_zero hdepth]

/-- Up to the end of the text in front, a run is the same in a text that goes on. -/
theorem run_extend {source : Bytes} (happroaches : l.Approaches) (hsettled : l.IsSettled)
    (running : l.finished = false) (hlevels : ∀ level ∈ l.levels, 0 < level)
    (hwithin : l.cursor.Within source) (hfaultless : IsFaultless l.run.1) :
    ∃ (items : List LexItem) (seam : Lexer), seam.AtSeam ∧ seam.cursor.Within source ∧
      l.run.1 = items ++ seam.run.1 ∧ (l.extend behind).run.1 = items ++ (seam.extend behind).run.1 ∧
      ∀ t, .token t ∈ items → t.offset < source.length := by
  induction l using run.induct with
  | case1 l hfinished =>
      rw [running] at hfinished
      cases hfinished
  | case2 l hrunning ih =>
      rcases happroaches with hahead | ⟨hend, hblank, hstart⟩
      · rw [run_step running] at hfaultless
        have halike := step_readsAlike behind hahead
          fun f hf => hfaultless f (List.mem_append_left _ hf)
        obtain ⟨items, seam, hseam, hin, hrun, hrun', hoffsets⟩ := ih halike.approaches
          (step_arranged running hsettled).1 (halike.finished_eq.trans running)
          (step_levels_pos hlevels) (step_faithful hwithin).1
          fun f hf => hfaultless f (List.mem_append_right _ hf)
        refine ⟨l.step.1 ++ items, seam, hseam, hin, ?_, ?_, fun t ht => ?_⟩
        · rw [run_step running, hrun, List.append_assoc]
        · rw [run_step (l := l.extend behind) running, halike.read_eq]
          dsimp only
          rw [hrun', List.append_assoc]
        · rcases List.mem_append.1 ht with ht | ht
          · obtain ⟨front, hsource, -, hoffset⟩ := hwithin
            have hlt := halike.offset_lt t ht
            rwa [reach, hoffset, ← List.length_append, ← hsource] at hlt
          · exact hoffsets t ht
      · have hdepth := depth_eq_zero hend running hfaultless
        have hline : l.lineStart = true := hstart.resolve_left (by omega)
        exact ⟨[], l, ⟨hend, hblank, hline, hdepth, (hsettled hline).1, running, hlevels⟩,
          hwithin, rfl, rfl, by simp⟩

end Lexer

end DocLint
