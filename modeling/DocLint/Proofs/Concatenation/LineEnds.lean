import DocLint.Proofs.Concatenation.Lexing

/-!
# Line ends and brackets

The lexer ends a line outside brackets only, so that a group of brackets never goes over the end of
its line.

* `newlinesOutside`: newlines stand outside brackets.
* `step_mayEnd`, `run_mayEnd`: so it is with what a step and a run yield.
* `newlinesOutside_ofSource`: so it is in a whole text that nothing is reported of.
-/

namespace DocLint

open Bytes

/-- A line ends outside brackets only. -/
def newlinesOutside : Nat → List TokenKind → Bool
  | _, [] => true
  | depth, kind :: rest =>
    (kind != .newline || depth == 0) && newlinesOutside (Lexer.depthAfter depth kind) rest

theorem newlinesOutside_cons {depth : Nat} {kind : TokenKind} {rest : List TokenKind}
    (h : newlinesOutside depth (kind :: rest) = true) :
    (kind = .newline → depth = 0) ∧ newlinesOutside (Lexer.depthAfter depth kind) rest = true := by
  rw [newlinesOutside, Bool.and_eq_true, Bool.or_eq_true, bne_iff_ne, beq_iff_eq] at h
  exact ⟨fun hkind => h.1.resolve_left fun hne => hne hkind, h.2⟩

/-- Behind a newline there are no open brackets. -/
theorem newlinesOutside_behind {depth : Nat} {front back : List TokenKind}
    (h : newlinesOutside depth (front ++ .newline :: back) = true) :
    newlinesOutside 0 back = true := by
  induction front generalizing depth with
  | nil =>
      obtain ⟨hdepth, hback⟩ := newlinesOutside_cons h
      rw [hdepth rfl] at hback
      exact hback
  | cons kind front ih => exact ih (newlinesOutside_cons h).2

theorem newlinesOutside_front {depth : Nat} {front back : List TokenKind}
    (h : newlinesOutside depth (front ++ back) = true) : newlinesOutside depth front = true := by
  induction front generalizing depth with
  | nil => rfl
  | cons kind front ih =>
      rw [List.cons_append, newlinesOutside, Bool.and_eq_true] at h
      rw [newlinesOutside, h.1, ih h.2]
      rfl

/-- Marks of the layout do not change the depth. -/
theorem newlinesOutside_replicate (n : Nat) {depth : Nat} {rest : List TokenKind}
    (h : newlinesOutside depth rest = true) :
    newlinesOutside depth (List.replicate n .dedent ++ rest) = true := by
  induction n with
  | zero => exact h
  | succ n ih => exact ih

namespace Lexer

/-- The kinds that the lexer may yield from now on, so that lines end outside brackets. -/
def MayEnd (l : Lexer) (kinds : List TokenKind) : Prop :=
  if l.finished then kinds = [] else newlinesOutside l.depth kinds = true

theorem layout_newlinesOutside (cursor : ByteCursor) (levels : List Nat) (width : Nat) {depth : Nat}
    {rest : List TokenKind} (h : newlinesOutside depth rest = true) :
    newlinesOutside depth (kindsOf (layout cursor levels width).1 ++ rest) = true := by
  unfold layout
  split
  · exact h
  · dsimp only
    rw [kindsOf_append, kindsOf_dedents]
    split
    · rw [kindsOf_nil, List.append_nil]
      exact newlinesOutside_replicate _ h
    · rw [kindsOf_fault, kindsOf_nil, List.append_nil]
      exact newlinesOutside_replicate _ h

theorem startLine_mayEnd {l : Lexer} (running : l.finished = false) {rest : List TokenKind}
    (h : l.startLine.2.MayEnd rest) : l.MayEnd (kindsOf l.startLine.1 ++ rest) := by
  have hcomments := kindsOf_optionalComment
    (l.cursor.skip (l.cursor.rest.takeWhile isIndentation).length)
  simp only [MayEnd, finished_startLine, running, Bool.false_eq_true, if_false] at h ⊢
  unfold startLine at h ⊢
  dsimp only at h ⊢
  split at h
  · rwa [hcomments, List.nil_append]
  · split at h
    next hd => rwa [if_pos hd, hcomments, List.nil_append]
    next hd =>
      rw [if_neg hd, kindsOf_append, hcomments]
      exact layout_newlinesOutside _ _ _ h

theorem finish_newlinesOutside {l : Lexer} {here : ByteCursor}
    (hfaultless : IsFaultless (l.finish here).1) :
    newlinesOutside l.depth (kindsOf (l.finish here).1) = true := by
  have hdepth : ¬ 0 < l.depth := fun hdepth => by
    refine hfaultless ⟨here.position, .openBracket⟩ ?_
    simp [finish, hdepth]
  have hzero : l.depth = 0 := Nat.eq_zero_of_not_pos hdepth
  have hblocks : newlinesOutside 0 (List.replicate l.levels.length .dedent ++ [.eof]) = true :=
    newlinesOutside_replicate _ rfl
  simp only [finish, kindsOf_append, kindsOf_dedents, List.append_assoc, hzero]
  cases l.lineOpen with
  | false => exact hblocks
  | true => exact hblocks

theorem mayEnd_iff {l : Lexer} (running : l.finished = false) (kinds : List TokenKind) :
    l.MayEnd kinds ↔ newlinesOutside l.depth kinds = true := by
  simp [MayEnd, running]

/-- The end of a line is marked outside brackets only. -/
theorem endLine_mayEnd {l : Lexer} {here : ByteCursor} (running : l.finished = false)
    {rest : List TokenKind} (h : (l.endLine here).2.MayEnd rest) :
    l.MayEnd (kindsOf (l.endLine here).1 ++ rest) := by
  rw [mayEnd_iff running]
  rw [mayEnd_iff ((l.finished_endLine here).trans running)] at h
  unfold endLine at h ⊢
  by_cases hdepth : 0 < l.depth
  · rwa [if_pos hdepth] at h ⊢
  · have hzero : l.depth = 0 := Nat.eq_zero_of_not_pos hdepth
    rw [if_neg hdepth] at h ⊢
    split at h
    next hopen =>
      rw [if_pos hopen, hzero]
      rw [hzero] at h
      exact h
    next hopen => rwa [if_neg hopen]

theorem readLexeme_mayEnd {l : Lexer} {here : ByteCursor} {c : UInt8} {r : Bytes}
    (running : l.finished = false) {rest : List TokenKind}
    (h : (l.readLexeme here c r).2.MayEnd rest) :
    l.MayEnd (kindsOf (l.readLexeme here c r).1 ++ rest) := by
  have hkinds : kindsOf (l.readLexeme here c r).1 = [(Lexeme.first c r).kind] := by
    unfold readLexeme
    dsimp only
    split
    · rfl
    · rfl
  rw [mayEnd_iff running]
  simp only [MayEnd, readLexeme, running, Bool.false_eq_true, if_false] at h
  rw [hkinds, List.singleton_append, newlinesOutside,
    bne_iff_ne.2 (Lexeme.first_kind_ne_newline c r), Bool.true_or, Bool.true_and]
  exact h

theorem resume_mayEnd {l : Lexer} (running : l.finished = false)
    (hfaultless : IsFaultless l.resume.1) {rest : List TokenKind} (h : l.resume.2.MayEnd rest) :
    l.MayEnd (kindsOf l.resume.1 ++ rest) := by
  unfold resume at h hfaultless ⊢
  dsimp only at h hfaultless ⊢
  generalize l.cursor.skip (gapLength l.cursor.rest) = here at h hfaultless ⊢
  split at h
  next hrest =>
    rw [hrest] at hfaultless
    obtain rfl : rest = [] := h
    rw [List.append_nil, mayEnd_iff running]
    exact finish_newlinesOutside hfaultless
  next c r hrest =>
    split at h
    next hc =>
      rw [if_pos hc]
      exact h
    next hc =>
      rw [if_neg hc]
      split at h
      next hnewline =>
        rw [if_pos hnewline]
        exact endLine_mayEnd running h
      next hnewline =>
        rw [if_neg hnewline]
        exact readLexeme_mayEnd running h

theorem step_mayEnd {l : Lexer} (running : l.finished = false) (hfaultless : IsFaultless l.step.1)
    {rest : List TokenKind} (h : l.step.2.MayEnd rest) : l.MayEnd (kindsOf l.step.1 ++ rest) := by
  unfold step at h hfaultless ⊢
  split at h
  next hstart =>
    rw [if_pos hstart]
    exact startLine_mayEnd running h
  next hstart =>
    rw [if_neg hstart] at hfaultless ⊢
    exact resume_mayEnd running hfaultless h

/-- Where nothing is reported, what a run yields ends its lines outside brackets. -/
theorem run_mayEnd {l : Lexer} (hfaultless : IsFaultless l.run.1) : l.MayEnd (kindsOf l.run.1) := by
  induction l using run.induct with
  | case1 l hfinished =>
      rw [MayEnd, if_pos hfinished, run, if_pos hfinished]
      rfl
  | case2 l hrunning ih =>
      have running : l.finished = false := by simpa using hrunning
      rw [TokenStream.run_step running] at hfaultless ⊢
      rw [kindsOf_append]
      exact step_mayEnd running (fun f hf => hfaultless f (List.mem_append_left _ hf))
        (ih fun f hf => hfaultless f (List.mem_append_right _ hf))

end Lexer

/-- In a text that nothing is reported of, lines end outside brackets. -/
theorem LexedSource.newlinesOutside_ofSource {source : Bytes} (h : (ofSource source).faults = []) :
    newlinesOutside 0 ((ofSource source).tokens.map Token.kind) = true := by
  have hfaultless : Lexer.IsFaultless (Lexer.ofSource source).run.1 := fun f hf => by
    have hmem := mem_faults_iff.2 (show LexItem.fault f ∈ (ofSource source).items from hf)
    rw [h] at hmem
    cases hmem
  exact Lexer.run_mayEnd hfaultless

end DocLint
