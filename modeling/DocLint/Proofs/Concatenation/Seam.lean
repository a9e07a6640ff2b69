import DocLint.Proofs.Concatenation.Lexing

/-!
# The text behind the seam

Behind another text the lexer yields what it yields at the beginning of a file, further down, except
that the blocks still open end in front of the first token.

* `step_lower`, `run_lower`: the same further down.
* `EndsBlocks`, `run_withLevels`: the blocks that are open at the beginning of a text.
* `nonempty_joins`: the items of one text behind the other.
* `Joins.exists_tokens_eq`, `Joins.comments_eq`, `Joins.faults_eq`: its tokens, comments and faults.
-/

namespace DocLint

open Bytes

namespace ByteCursor

/-- The same place that many lines further down, behind that many more bytes. -/
def lower (lines : UInt32) (bytes : Nat) (c : ByteCursor) : ByteCursor :=
  { c with position := c.position.lower lines, offset := c.offset + bytes }

variable (lines : UInt32) (bytes : Nat) (c : ByteCursor)

@[simp] theorem rest_lower : (c.lower lines bytes).rest = c.rest := rfl

theorem skip_lower (n : Nat) : (c.lower lines bytes).skip n = (c.skip n).lower lines bytes := by
  induction n generalizing c with
  | zero => rfl
  | succ n ih =>
      rw [skip, skip, rest_lower]
      cases c.rest with
      | nil => rfl
      | cons d r =>
          have hstep : (c.lower lines bytes).step d r = (c.step d r).lower lines bytes := by
            simp only [step, lower, Position.step_lower, Nat.add_right_comm]
          exact (congrArg (skip n) hstep).trans (ih (c.step d r))

end ByteCursor

open ByteCursor TokenStream

namespace Lexer

variable (lines : UInt32) (bytes : Nat) (c : ByteCursor) (l : Lexer)

/-! ### Further down -/

/-- The same lexer that many lines further down, behind that many more bytes. -/
def lower (lines : UInt32) (bytes : Nat) (l : Lexer) : Lexer :=
  { l with cursor := l.cursor.lower lines bytes }

/-- What is read further down. -/
def readLower (lines : UInt32) (bytes : Nat) (read : List LexItem × Lexer) : List LexItem × Lexer :=
  (read.1.map (LexItem.lower lines bytes), read.2.lower lines bytes)

theorem optionalComment_lower :
    optionalComment (c.lower lines bytes) =
      ((optionalComment c).1.map (LexItem.lower lines bytes),
        (optionalComment c).2.lower lines bytes) := by
  unfold optionalComment
  rw [rest_lower, skip_lower]
  split
  · rfl
  · rfl

theorem optionalReturn_lower :
    optionalReturn (c.lower lines bytes) = (optionalReturn c).lower lines bytes := by
  unfold optionalReturn
  rw [rest_lower, skip_lower]
  split
  · rfl
  · rfl

theorem layout_lower (levels : List Nat) (width : Nat) :
    layout (c.lower lines bytes) levels width =
      ((layout c levels width).1.map (LexItem.lower lines bytes), (layout c levels width).2) := by
  unfold layout
  split
  · rfl
  · dsimp only
    rw [List.map_append, List.map_map]
    split
    · rfl
    · rfl

theorem startLine_lower :
    (l.lower lines bytes).startLine = readLower lines bytes l.startLine := by
  unfold startLine
  dsimp only [lower]
  rw [rest_lower, skip_lower, optionalComment_lower, optionalReturn_lower]
  dsimp only
  rw [rest_lower]
  split
  · rfl
  · split
    · rw [skip_lower]
      rfl
    · rw [layout_lower]
      simp only [readLower, List.map_append]
      rfl

theorem finish_lower :
    (l.lower lines bytes).finish (c.lower lines bytes) = readLower lines bytes (l.finish c) := by
  have hif (h : Prop) [Decidable h] (items : List LexItem) :
      (if h then items else []).map (LexItem.lower lines bytes) =
        if h then items.map (LexItem.lower lines bytes) else [] := by
    split
    · rfl
    · rfl
  simp only [finish, readLower, List.map_append, List.map_map, hif]
  rfl

theorem endLine_lower :
    (l.lower lines bytes).endLine (c.lower lines bytes) = readLower lines bytes (l.endLine c) := by
  unfold endLine
  rw [skip_lower]
  by_cases hdepth : 0 < l.depth
  · rw [if_pos hdepth, if_pos (show 0 < (l.lower lines bytes).depth from hdepth)]
    rfl
  · rw [if_neg hdepth, if_neg (show ¬ 0 < (l.lower lines bytes).depth from hdepth)]
    by_cases hopen : l.lineOpen = true
    · rw [if_pos hopen, if_pos (show (l.lower lines bytes).lineOpen = true from hopen)]
      rfl
    · rw [if_neg hopen, if_neg (show ¬ (l.lower lines bytes).lineOpen = true from hopen)]
      rfl

theorem readLexeme_lower (d : UInt8) (r : Bytes) :
    (l.lower lines bytes).readLexeme (c.lower lines bytes) d r =
      readLower lines bytes (l.readLexeme c d r) := by
  unfold readLexeme
  dsimp only
  rw [skip_lower]
  cases (Lexeme.first d r).cause with
  | none => rfl
  | some cause => rfl

theorem resume_lower : (l.lower lines bytes).resume = readLower lines bytes l.resume := by
  unfold resume
  dsimp only [lower]
  rw [rest_lower, skip_lower]
  generalize l.cursor.skip (gapLength l.cursor.rest) = here
  rw [rest_lower]
  split
  · exact finish_lower lines bytes here l
  · split
    · rw [skip_lower]
      rfl
    · split
      · exact endLine_lower lines bytes here l
      · exact readLexeme_lower lines bytes here l _ _

theorem step_lower : (l.lower lines bytes).step = readLower lines bytes l.step := by
  have hsame : (l.lower lines bytes).step =
      if (l.lineStart && l.depth == 0) = true then (l.lower lines bytes).startLine
      else (l.lower lines bytes).resume := rfl
  rw [hsame, step]
  split
  · exact startLine_lower lines bytes l
  · exact resume_lower lines bytes l

/-- Further down a lexer yields the same, further down. -/
theorem run_lower : (l.lower lines bytes).run = readLower lines bytes l.run := by
  induction l using run.induct with
  | case1 l hfinished =>
      rw [run, if_pos (show (l.lower lines bytes).finished = true from hfinished), run,
        if_pos hfinished]
      rfl
  | case2 l hrunning ih =>
      have running : l.finished = false := by simpa using hrunning
      rw [run_step running, run_step (l := l.lower lines bytes) running, step_lower]
      simp only [readLower, List.map_append]
      rw [ih]
      rfl

/-! ### Open blocks at the beginning -/

/-- The same lexer with other blocks open. -/
def withLevels (levels : List Nat) (l : Lexer) : Lexer := { l with levels }

/-- The first line of a text ends the blocks that are open in front of it, unless it begins one. -/
theorem layout_outermost (cursor : ByteCursor) {levels : List Nat}
    (hlevels : ∀ level ∈ levels, 0 < level) :
    layout cursor levels 0 = (levels.map fun _ => .token (cursor.mark .dedent), []) := by
  have hclosed : levels.takeWhile (fun level => decide (0 < level)) = levels :=
    List.takeWhile_eq_self_iff.2 fun level hlevel => by simpa using hlevels level hlevel
  have hkept : levels.dropWhile (fun level => decide (0 < level)) = [] :=
    List.dropWhile_eq_nil_iff.2 fun level hlevel => by simpa using hlevels level hlevel
  rw [layout, if_neg (Nat.not_lt_zero _)]
  simp only [hclosed, hkept]
  rw [if_pos (show ([] : List Nat).headD 0 = 0 from rfl), List.append_nil]

theorem skip_of_nil {c : ByteCursor} (h : c.rest = []) (n : Nat) : c.skip n = c := by
  cases n with
  | zero => rfl
  | succ n => rw [skip, h]

/-- Where nothing is left and no line is open, the blocks end. -/
theorem run_end {l : Lexer} (hrest : l.cursor.rest = []) (hdepth : l.depth = 0)
    (hopen : l.lineOpen = false) (running : l.finished = false) :
    l.run.1 = (l.levels.map fun _ => .token (l.cursor.mark .dedent)) ++
      [.token (l.cursor.mark .eof)] := by
  have hmiddle {l : Lexer} (hrest : l.cursor.rest = []) (hdepth : l.depth = 0)
      (hopen : l.lineOpen = false) (running : l.finished = false) (hstart : l.lineStart = false) :
      l.run.1 = (l.levels.map fun _ => .token (l.cursor.mark .dedent)) ++
        [.token (l.cursor.mark .eof)] := by
    have hstep : l.step = l.finish l.cursor := by
      rw [step, if_neg (by simp [hstart]), resume, skip_of_nil hrest, hrest]
    have hdone : (l.finish l.cursor).2.run.1 = [] := by
      rw [run, if_pos (show (l.finish l.cursor).2.finished = true from rfl)]
    rw [run_step running, hstep]
    dsimp only
    rw [hdone, List.append_nil]
    simp [finish, hdepth, hopen]
  cases hstart : l.lineStart with
  | false => exact hmiddle hrest hdepth hopen running hstart
  | true =>
      have hnone : ¬ l.cursor.rest.head? = some (byte '#') := by simp [hrest]
      have hnone' : ¬ l.cursor.rest.head? = some carriageReturn := by simp [hrest]
      have hstep : l.step = ([], { l with lineStart := false }) := by
        rw [step, if_pos (by simp [hstart, hdepth]), startLine, skip_of_nil hrest, optionalComment,
          if_neg hnone]
        dsimp only
        rw [optionalReturn, if_neg hnone', hrest]
      rw [run_step running, hstep]
      exact hmiddle hrest hdepth hopen running rfl

theorem run_seam {l : Lexer} (h : l.AtSeam) :
    l.run.1 = (l.levels.map fun _ => .token (l.cursor.mark .dedent)) ++
      [.token (l.cursor.mark .eof)] :=
  run_end h.rest_eq h.depth_eq h.lineOpen_eq h.finished_eq

/-- The beginning of a line is read alike whatever blocks are open: the text ends, or the line is
blank, or its indentation is laid out. -/
theorem startLine_cases (l : Lexer) :
    ∃ (comments : List LexItem) (here : ByteCursor), kindsOf comments = [] ∧
      ((here.rest = [] ∧ ∀ levels, (l.withLevels levels).startLine =
          (comments, { l with cursor := here, levels, lineStart := false })) ∨
        (∀ levels, (l.withLevels levels).startLine =
          (comments, { l with cursor := here.skip 1, levels })) ∨
        ∃ width, ∀ levels, (l.withLevels levels).startLine =
          (comments ++ (layout here levels width).1,
            { l with cursor := here, levels := (layout here levels width).2
                     lineStart := false })) := by
  have hno := kindsOf_optionalComment (l.cursor.skip (l.cursor.rest.takeWhile isIndentation).length)
  unfold startLine
  dsimp only [withLevels]
  generalize optionalComment (l.cursor.skip _) = comments at hno ⊢
  generalize optionalReturn comments.2 = here
  refine ⟨comments.1, here, hno, ?_⟩
  cases hrest : here.rest with
  | nil => exact .inl ⟨rfl, fun _ => rfl⟩
  | cons d r =>
      by_cases hd : d = newline
      · exact .inr (.inl fun _ => if_pos hd)
      · exact .inr (.inr ⟨_, fun _ => if_neg hd⟩)

/-- Both runs yield the same, except that in front of its first token the second one ends blocks. -/
def EndsBlocks (levels : List Nat) (run run' : List LexItem) : Prop :=
  ∃ (before after : List LexItem) (here : ByteCursor), kindsOf before = [] ∧
    run = before ++ after ∧
    run' = before ++ (levels.map (fun _ => .token (here.mark .dedent)) ++ after)

/-- Some items in front that are no tokens. -/
theorem EndsBlocks.prepend {levels : List Nat} {run run' items : List LexItem}
    (h : EndsBlocks levels run run') (hitems : kindsOf items = []) :
    EndsBlocks levels (items ++ run) (items ++ run') := by
  obtain ⟨before, after, here, hbefore, rfl, rfl⟩ := h
  refine ⟨items ++ before, after, here, ?_, ?_, ?_⟩
  · rw [kindsOf_append, hitems, hbefore, List.append_nil]
  · rw [List.append_assoc]
  · rw [List.append_assoc]

/-- With blocks open in front of it, a text yields the same as without, except that the blocks end in
front of its first token.  This must not begin a block itself. -/
theorem run_withLevels {levels : List Nat} (hlevels : ∀ level ∈ levels, 0 < level) {l : Lexer}
    (houter : l.levels = []) (hstart : l.lineStart = true) (hdepth : l.depth = 0)
    (hopen : l.lineOpen = false) (running : l.finished = false)
    (hfirst : ∀ kind ∈ (kindsOf l.run.1).head?, kind ≠ .indent ∧ kind ≠ .eof) :
    EndsBlocks levels l.run.1 (l.withLevels levels).run.1 := by
  induction l using run.induct with
  | case1 l hfinished =>
      rw [running] at hfinished
      cases hfinished
  | case2 l hrunning ih =>
      have hself : l = l.withLevels [] := by
        rw [withLevels, ← houter]
      have hstep (levels : List Nat) :
          (l.withLevels levels).step = (l.withLevels levels).startLine :=
        if_pos (show (l.lineStart && l.depth == 0) = true by simp [hstart, hdepth])
      have hrun (levels : List Nat) : (l.withLevels levels).run.1 =
          (l.withLevels levels).startLine.1 ++ (l.withLevels levels).startLine.2.run.1 := by
        rw [run_step (l := l.withLevels levels) running, hstep]
      have hsame : l.step.2 = (l.withLevels []).startLine.2 := by rw [← hstep, ← hself]
      rw [show l.run.1 = (l.withLevels []).run.1 by rw [← hself], hrun] at hfirst ⊢
      rw [hrun levels]
      rw [hsame] at ih
      obtain ⟨comments, here, hno, ⟨hrest, hends⟩ | hblank | ⟨width, hlaid⟩⟩ := l.startLine_cases
      · -- The text would have no tokens at all.
        rw [hends] at hfirst
        dsimp only at hfirst
        rw [kindsOf_append, hno,
          run_end (l := { l with cursor := here, levels := [], lineStart := false }) hrest hdepth
            hopen running] at hfirst
        exact absurd rfl (hfirst .eof rfl).2
      · rw [hblank] at hfirst ih ⊢
        rw [hblank]
        dsimp only at hfirst ih ⊢
        rw [kindsOf_append, hno, List.nil_append] at hfirst
        exact (ih rfl hstart hdepth hopen running hfirst).prepend hno
      · rw [hlaid] at hfirst ⊢
        rw [hlaid]
        dsimp only at hfirst ⊢
        cases width with
        | zero =>
            rw [layout_outermost here (List.forall_mem_nil _), layout_outermost here hlevels]
            dsimp only
            rw [List.append_assoc, List.append_assoc]
            exact EndsBlocks.prepend ⟨[], _, here, rfl, rfl, rfl⟩ hno
        | succ width =>
            have hmarks : kindsOf (layout here [] (width + 1)).1 = [.indent] := by
              rw [layout, if_pos (show ([] : List Nat).headD 0 < width + 1 from Nat.succ_pos width)]
              rfl
            rw [kindsOf_append, kindsOf_append, hno, hmarks] at hfirst
            exact absurd rfl (hfirst .indent rfl).1

end Lexer

/-! ### One text behind the other -/

theorem LexItem.token?_lower (lines : UInt32) (bytes : Nat) (item : LexItem) :
    (item.lower lines bytes).token? = item.token?.map (Token.lower lines bytes) := by
  cases item <;> rfl

theorem LexItem.comment?_lower (lines : UInt32) (bytes : Nat) (item : LexItem) :
    (item.lower lines bytes).comment? = item.comment?.map (Comment.lower lines bytes) := by
  cases item <;> rfl

theorem LexItem.fault?_lower (lines : UInt32) (bytes : Nat) (item : LexItem) :
    (item.lower lines bytes).fault? = item.fault?.map (Fault.lower lines) := by
  cases item <;> rfl

/-- Behind a newline a text begins as at the beginning of a file, further down. -/
theorem Position.after_newline {front : Bytes} (h : front.getLast? = some newline) :
    after {} front = (({} : Position).lower (UInt32.ofNat (front.count newline))) := by
  obtain ⟨line, rfl⟩ := List.getLast?_eq_some_iff.1 h
  rw [after_eq_ofNat, List.reverse_concat, List.takeWhile_cons_of_neg (by simp), lower,
    UInt32.ofNat_add]
  rfl

namespace LexedSource

/-- The dedents for some blocks that end. -/
def dedents (cursor : ByteCursor) (levels : List Nat) : List LexItem :=
  levels.map fun _ => .token (cursor.mark .dedent)

/-- How the items of two texts go together: the blocks that are open at the end of the one in front
end in front of the first token of the other. -/
structure Joins (front back : Bytes) where
  items : List LexItem
  before : List LexItem
  after : List LexItem
  levels : List Nat
  /-- The end of the text in front. -/
  stop : ByteCursor
  /-- The beginning of the text behind, behind its comments. -/
  start : ByteCursor
  front_eq : (ofSource front).items =
    items ++ (dedents stop levels ++ [.token (stop.mark .eof)])
  back_eq : (ofSource back).items = before ++ after
  append_eq : (ofSource (front ++ back)).items = items ++
    (before ++ (dedents start levels ++ after)).map
      (LexItem.lower (UInt32.ofNat (front.count newline)) front.length)
  stop_offset : stop.offset = front.length
  items_offset : ∀ t, LexItem.token t ∈ items → t.offset < front.length
  before_kinds : kindsOf before = []

/-- The lexer at the end of a text is the one at the beginning of the text behind, but for its place
and the blocks that are open. -/
theorem extend_seam {front : Bytes} {seam : Lexer} (back : Bytes) (h : seam.AtSeam)
    (hwithin : seam.cursor.Within front) (hlast : front.getLast? = some newline) :
    seam.extend back = ((Lexer.ofSource back).withLevels seam.levels).lower
        (UInt32.ofNat (front.count newline)) front.length ∧
      seam.cursor.offset = front.length := by
  obtain ⟨read, hsource, hposition, hoffset⟩ := hwithin
  rw [h.rest_eq, List.append_nil] at hsource
  rw [← hsource, Position.after_newline hlast] at hposition
  rw [← hsource] at hoffset
  obtain ⟨⟨rest, position, offset, blankLine⟩, levels, depth, lineStart, lineOpen, finished⟩ := seam
  obtain ⟨rfl, rfl, rfl, rfl, rfl, rfl, -⟩ := h
  cases hposition
  cases hoffset
  refine ⟨?_, rfl⟩
  simp only [Lexer.extend, Lexer.lower, Lexer.withLevels, Lexer.ofSource, ByteCursor.extend,
    ByteCursor.lower, Position.lower, List.nil_append, Nat.zero_add]

theorem nonempty_joins {front back : Bytes} (hfront : (ofSource front).faults = [])
    (hblank : [newline, newline] <:+ front)
    (hfirst : ∀ t ∈ (ofSource back).tokens.head?, t.kind ≠ .indent ∧ t.kind ≠ .eof) :
    Nonempty (Joins front back) := by
  obtain ⟨text, htext⟩ := hblank
  have hlast : front.getLast? = some newline := by rw [← htext, List.getLast?_append]; rfl
  have hterminated : (Lexer.ofSource front).cursor.Terminated := by
    refine ⟨text ++ [newline], ?_, ?_⟩
    · show front = _
      rw [← htext, List.append_assoc]
      rfl
    · intro c hc
      rw [List.getLast?_concat] at hc
      exact (Option.some.inj hc).symm
  have hfaultless : Lexer.IsFaultless (Lexer.ofSource front).run.1 := fun f hf => by
    have hmem := mem_faults_iff.2 (show LexItem.fault f ∈ (ofSource front).items from hf)
    rw [hfront] at hmem
    cases hmem
  obtain ⟨items, seam, hseam, hwithin, hrun, hrun', hoffsets⟩ :=
    Lexer.run_extend back (.inl hterminated) (fun _ => ⟨rfl, rfl⟩) rfl (by simp [Lexer.ofSource])
      (⟨[], rfl, rfl, rfl⟩ : (Lexer.ofSource front).cursor.Within front) hfaultless
  obtain ⟨hmiddle, hoffset⟩ := extend_seam back hseam hwithin hlast
  have hkinds : ∀ kind ∈ (kindsOf (Lexer.ofSource back).run.1).head?,
      kind ≠ .indent ∧ kind ≠ .eof := by
    intro kind hkind
    obtain ⟨t, ht, rfl⟩ := Option.map_eq_some_iff.1 (List.head?_map ▸ hkind)
    exact hfirst t ht
  obtain ⟨before, after, start, hbefore, hback, hback'⟩ :=
    Lexer.run_withLevels hseam.levels_pos (l := Lexer.ofSource back) rfl rfl rfl rfl rfl hkinds
  refine ⟨{
    items, before, after, start
    levels := seam.levels
    stop := seam.cursor
    front_eq := ?_
    back_eq := hback
    append_eq := ?_
    stop_offset := hoffset
    items_offset := hoffsets
    before_kinds := hbefore }⟩
  · rw [dedents, ← Lexer.run_seam hseam, ← hrun]
    rfl
  · have hsame : Lexer.ofSource (front ++ back) = (Lexer.ofSource front).extend back := rfl
    show (Lexer.ofSource (front ++ back)).run.1 = _
    rw [hsame, hrun', hmiddle, Lexer.run_lower, dedents, ← hback']
    rfl

theorem filterMap_lower {α : Type} {lines : UInt32} {bytes : Nat} {what : LexItem → Option α}
    {lower : α → α}
    (hlower : ∀ item, what (item.lower lines bytes) = (what item).map lower)
    (items : List LexItem) :
    (items.map (LexItem.lower lines bytes)).filterMap what = (items.filterMap what).map lower := by
  rw [List.filterMap_map, List.map_filterMap]
  exact List.filterMap_congr fun item _ => hlower item

namespace Joins

variable {front back : Bytes} (j : Joins front back)
include j

/-- What is not a token does not depend on the blocks. -/
theorem filterMap_eq {α : Type} (what : LexItem → Option α) (lower : α → α)
    (htoken : ∀ t, what (.token t) = none)
    (hlower : ∀ item, what (item.lower (UInt32.ofNat (front.count newline)) front.length) =
      (what item).map lower) :
    (ofSource (front ++ back)).items.filterMap what =
      (ofSource front).items.filterMap what ++ ((ofSource back).items.filterMap what).map lower := by
  have hdedents (cursor : ByteCursor) : (dedents cursor j.levels).filterMap what = [] := by
    simp [dedents, htoken]
  rw [j.front_eq, j.back_eq, j.append_eq]
  simp only [List.filterMap_append, filterMap_lower hlower, hdedents, List.map_append,
    List.map_nil, List.filterMap_cons, htoken, List.filterMap_nil, List.append_nil,
    List.nil_append]

theorem comments_eq : (ofSource (front ++ back)).comments = (ofSource front).comments ++
    (ofSource back).comments.map
      (Comment.lower (UInt32.ofNat (front.count newline)) front.length) :=
  j.filterMap_eq LexItem.comment? _ (fun _ => rfl) (LexItem.comment?_lower _ _)

theorem faults_eq : (ofSource (front ++ back)).faults = (ofSource front).faults ++
    (ofSource back).faults.map (Fault.lower (UInt32.ofNat (front.count newline))) :=
  j.filterMap_eq LexItem.fault? _ (fun _ => rfl) (LexItem.fault?_lower _ _)

end Joins

/-- The tokens are the same, except that a dedent may stand somewhere else. -/
structure MovesDedents (f : Token → Token) : Prop where
  kind_eq : ∀ t, (f t).kind = t.kind
  text_eq : ∀ t, (f t).text = t.text
  eq_self : ∀ t, t.kind ≠ .dedent → f t = t

/-- One token in the place of another. -/
def replace (old new t : Token) : Token := if t = old then new else t

theorem movesDedents_replace {old new : Token} (hold : old.kind = .dedent) (hnew : new.kind = .dedent)
    (htext : new.text = old.text) : MovesDedents (replace old new) where
  kind_eq t := by
    unfold replace
    split
    next h => rw [h, hold, hnew]
    · rfl
  text_eq t := by
    unfold replace
    split
    next h => rw [h, htext]
    · rfl
  eq_self t hkind := if_neg fun h => hkind ((congrArg Token.kind h).trans hold)

theorem filterMap_dedents (cursor : ByteCursor) (levels : List Nat) :
    (dedents cursor levels).filterMap LexItem.token? = levels.map fun _ => cursor.mark .dedent := by
  rw [dedents, List.filterMap_map]
  exact congrFun List.filterMap_eq_map _

/-- The tokens of the text in front, the end mark left out. -/
theorem Joins.dropLast_tokens {front back : Bytes} (j : Joins front back) :
    (ofSource front).tokens.dropLast =
      j.items.filterMap LexItem.token? ++ j.levels.map fun _ => j.stop.mark .dedent := by
  rw [tokens, j.front_eq, List.filterMap_append, List.filterMap_append, filterMap_dedents,
    ← List.append_assoc]
  exact List.dropLast_concat

/-- What does not end a block is in front of the end. -/
theorem Joins.offset_lt {front back : Bytes} (j : Joins front back) {t : Token}
    (ht : t ∈ (ofSource front).tokens.dropLast) (hkind : t.kind ≠ .dedent) :
    t.offset < front.length := by
  rw [j.dropLast_tokens] at ht
  rcases List.mem_append.1 ht with ht | ht
  · obtain ⟨item, hitem, htoken⟩ := List.mem_filterMap.1 ht
    cases item with
    | token u =>
        cases htoken
        exact j.items_offset t hitem
    | comment c => cases htoken
    | fault f => cases htoken
  · obtain ⟨_, -, rfl⟩ := List.mem_map.1 ht
    exact absurd rfl hkind

/-- The tokens of both texts, the end mark of the one in front left out. -/
theorem Joins.exists_tokens_eq {front back : Bytes} (j : Joins front back) :
    ∃ f, MovesDedents f ∧ (ofSource (front ++ back)).tokens =
      (ofSource front).tokens.dropLast.map f ++
        (ofSource back).tokens.map
          (Token.lower (UInt32.ofNat (front.count newline)) front.length) := by
  have hbefore : j.before.filterMap LexItem.token? = [] := List.map_eq_nil_iff.1 j.before_kinds
  let new := (j.start.mark .dedent).lower (UInt32.ofNat (front.count newline)) front.length
  refine ⟨replace (j.stop.mark .dedent) new, movesDedents_replace rfl rfl rfl, ?_⟩
  -- The dedents at the end of the text in front are its only tokens there.
  have hitems : (j.items.filterMap LexItem.token?).map (replace (j.stop.mark .dedent) new) =
      j.items.filterMap LexItem.token? := by
    refine (List.map_congr_left fun t ht => if_neg ?_).trans (List.map_id _)
    rintro rfl
    obtain ⟨item, hitem, htoken⟩ := List.mem_filterMap.1 ht
    cases item with
    | token t =>
        cases htoken
        exact absurd (j.items_offset _ hitem) (j.stop_offset ▸ Nat.lt_irrefl _)
    | comment c => cases htoken
    | fault f => cases htoken
  have hlevels : (j.levels.map fun _ => j.stop.mark .dedent).map
      (replace (j.stop.mark .dedent) new) = j.levels.map fun _ => new := by
    rw [List.map_map]
    exact List.map_congr_left fun _ _ => if_pos rfl
  rw [j.dropLast_tokens, List.map_append, hitems, hlevels, tokens, tokens, j.append_eq, j.back_eq]
  simp only [List.filterMap_append, filterMap_lower (LexItem.token?_lower _ _), filterMap_dedents,
    hbefore, List.map_append, List.map_map, List.map_nil, List.nil_append, List.append_assoc]
  rfl

end LexedSource

end DocLint
