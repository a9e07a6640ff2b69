import DocLint.Proofs.Source.Brackets
import DocLint.Proofs.Source.Spelling
import DocLint.Proofs.Source.Tiling
import Mathlib

/-!
# Reading what has been written

A program is written line by line: four blanks for each level, the lexemes with a space between any
two, and a newline.  The lexer reads it back: the same lexemes, a newline token for each line, and
the indents and dedents that the levels call for.

* `ReadState`: what of a lexer matters for what it yields, its place in the file apart.
* `Reads`: from one state to another the lexer yields certain tokens, and nothing else.
* `tokens_render`: the tokens of a written program.
-/

namespace DocLint

open Bytes

/-! ### Programs -/

/-- A lexeme with its spelling. -/
structure SpelledLexeme where
  kind : TokenKind
  text : Bytes
  spells : Spells kind text

/-- A line of a program: at least one lexeme, with all brackets closed. -/
structure LogicalLine where
  level : Nat
  lexemes : List SpelledLexeme
  lexemes_ne_nil : lexemes ≠ []
  balanced : isBalanced (fun _ => true) 0 (lexemes.map SpelledLexeme.kind) = true

/-- A program begins at the outermost level, and each line is at most one level deeper than the line
above it. -/
structure LogicalProgram where
  lines : List LogicalLine
  first_level : ∀ line ∈ lines.head?, line.level = 0
  level_le : lines.IsChain fun above line => line.level ≤ above.level + 1

/-- The line as text. -/
def LogicalLine.render (line : LogicalLine) : Bytes :=
  List.replicate (4 * line.level) space ++
    (join [space] (line.lexemes.map SpelledLexeme.text) ++ [newline])

/-- The program as text. -/
def LogicalProgram.render (program : LogicalProgram) : Bytes :=
  program.lines.flatMap LogicalLine.render

/-- The marks in front of a line: one indent where the level rises, else a dedent for each level
that it falls by. -/
def levelMarks (above level : Nat) : List (TokenKind × Bytes) :=
  if above < level then [(.indent, [])] else List.replicate (above - level) (.dedent, [])

/-- The tokens of some lines, below a line of a certain level: kinds and texts. -/
def lineTokens : Nat → List LogicalLine → List (TokenKind × Bytes)
  | above, [] => List.replicate above (.dedent, []) ++ [(.eof, [])]
  | above, line :: lines =>
    levelMarks above line.level ++ line.lexemes.map (fun x => (x.kind, x.text)) ++
      (.newline, [newline]) :: lineTokens line.level lines

/-! ### Reading -/

/-- The kind and the text of an item that is a token. -/
def LexItem.written? : LexItem → Option (TokenKind × Bytes)
  | token t => some (t.kind, t.text)
  | _ => none

/-- The items are tokens of these kinds and texts, with no comment and no fault among them. -/
def AreTokens (items : List LexItem) (tokens : List (TokenKind × Bytes)) : Prop :=
  items.map LexItem.written? = tokens.map some

theorem AreTokens.append {items more : List LexItem} {tokens others : List (TokenKind × Bytes)}
    (h : AreTokens items tokens) (hmore : AreTokens more others) :
    AreTokens (items ++ more) (tokens ++ others) := by
  rw [AreTokens, List.map_append, List.map_append, h, hmore]

theorem AreTokens.map_tokens {items : List LexItem} {tokens : List (TokenKind × Bytes)}
    (h : AreTokens items tokens) :
    (items.filterMap LexItem.token?).map (fun t => (t.kind, t.text)) = tokens := by
  induction items generalizing tokens with
  | nil =>
      obtain rfl : tokens = [] := by simpa [AreTokens] using h.symm
      rfl
  | cons item items ih =>
      cases tokens with
      | nil => simp [AreTokens] at h
      | cons written tokens =>
          obtain ⟨hitem, hitems⟩ := List.cons.inj h
          cases item with
          | token t =>
              obtain rfl : (t.kind, t.text) = written := Option.some.inj hitem
              exact congrArg _ (ih hitems)
          | comment c => cases hitem
          | fault f => cases hitem

theorem AreTokens.faults_eq_nil {items : List LexItem} {tokens : List (TokenKind × Bytes)}
    (h : AreTokens items tokens) : items.filterMap LexItem.fault? = [] := by
  rw [List.filterMap_eq_nil_iff]
  intro item hitem
  have hwritten : item.written? ∈ tokens.map some := by
    rw [← show items.map LexItem.written? = tokens.map some from h]
    exact List.mem_map_of_mem hitem
  cases item with
  | token t => rfl
  | comment c => rfl
  | fault f => simp [LexItem.written?] at hwritten

/-- What a lexer yields depends on no more than this. -/
structure ReadState where
  rest : Bytes
  levels : List Nat
  depth : Nat
  lineStart : Bool
  lineOpen : Bool

/-- The lexer is in a state, wherever it stands in the file. -/
structure Lexer.IsIn (l : Lexer) (s : ReadState) : Prop where
  running : l.finished = false
  rest : l.cursor.rest = s.rest
  levels : l.levels = s.levels
  depth : l.depth = s.depth
  lineStart : l.lineStart = s.lineStart
  lineOpen : l.lineOpen = s.lineOpen

/-- From one state the lexer gets to another, and yields the tokens on its way. -/
def Reads (s : ReadState) (tokens : List (TokenKind × Bytes)) (next : ReadState) : Prop :=
  ∀ l : Lexer, l.IsIn s → ∃ (items : List LexItem) (l' : Lexer), AreTokens items tokens ∧ l'.IsIn next ∧
    l.run.1 = items ++ l'.run.1

namespace Reads

variable {s next last : ReadState} {tokens more : List (TokenKind × Bytes)}

theorem refl (s : ReadState) : Reads s [] s := fun l hl => ⟨[], l, rfl, hl, rfl⟩

theorem trans (h : Reads s tokens next) (hmore : Reads next more last) :
    Reads s (tokens ++ more) last := by
  intro l hl
  obtain ⟨items, l', hitems, hl', hrun⟩ := h l hl
  obtain ⟨items', l'', hitems', hl'', hrun'⟩ := hmore l' hl'
  refine ⟨items ++ items', l'', hitems.append hitems', hl'', ?_⟩
  rw [hrun, hrun', List.append_assoc]

/-- One step is a beginning. -/
theorem of_step (h : ∀ l : Lexer, l.IsIn s → AreTokens l.step.1 tokens ∧ l.step.2.IsIn next) :
    Reads s tokens next := by
  intro l hl
  obtain ⟨htokens, hnext⟩ := h l hl
  refine ⟨l.step.1, l.step.2, htokens, hnext, ?_⟩
  rw [Lexer.run, if_neg (by simp [hl.running])]

end Reads

/-! ### Lexemes and line ends -/

theorem gapLength_of_isLexemeStart {c : UInt8} (h : IsLexemeStart c) (r : Bytes) :
    gapLength (c :: r) = 0 := by
  rw [gapLength.eq_def]
  dsimp only
  rw [if_neg (by simp [h.1]), if_neg h.2.2.1]

theorem gapLength_space {c : UInt8} (h : IsLexemeStart c) (r : Bytes) :
    gapLength (space :: c :: r) = 1 := by
  rw [gapLength.eq_def]
  dsimp only
  rw [if_pos (by decide), gapLength_of_isLexemeStart h]

/-- A lexeme is read, with or without a space in front of it. -/
theorem reads_lexeme (x : SpelledLexeme) (gap : Bytes) (hgap : gap = [] ∨ gap = [space]) {b : UInt8}
    (hb : IsSeparation b) (rest : Bytes) (levels : List Nat) (depth : Nat) (lineOpen : Bool) :
    Reads ⟨gap ++ (x.text ++ b :: rest), levels, depth, false, lineOpen⟩ [(x.kind, x.text)]
      ⟨b :: rest, levels, Lexer.depthAfter depth x.kind, false, true⟩ := by
  obtain ⟨c, r, htext, hstart, hfirst⟩ := first_of_spells hb rest x.spells
  have hlength : gapLength (gap ++ (x.text ++ b :: rest)) = gap.length := by
    rw [htext]
    rcases hgap with rfl | rfl
    · exact gapLength_of_isLexemeStart hstart _
    · exact gapLength_space hstart _
  apply Reads.of_step
  intro l hl
  have hskip : (l.cursor.skip (gapLength l.cursor.rest)).rest = c :: (r ++ b :: rest) := by
    rw [ByteCursor.rest_skip, hl.rest, hlength, List.drop_left, htext]
    rfl
  have hstep : l.step = l.readLexeme (l.cursor.skip (gapLength l.cursor.rest)) c
      (r ++ b :: rest) := by
    rw [Lexer.step, if_neg (by simp [hl.lineStart]), Lexer.resume]
    simp only [hskip]
    rw [if_neg hstart.2.2.2, if_neg hstart.2.1]
  rw [hstep]
  simp only [Lexer.readLexeme, hfirst]
  refine ⟨?_, ?_⟩
  · have htake : (c :: (r ++ b :: rest)).take x.text.length = x.text := by
      rw [← List.cons_append, ← htext, List.take_left]
    simp only [AreTokens, List.nil_append, List.map_cons, List.map_nil, LexItem.written?,
      ByteCursor.token, hskip, htake]
  · constructor
    · exact hl.running
    · have hdrop : (c :: (r ++ b :: rest)).drop x.text.length = b :: rest := by
        rw [← List.cons_append, ← htext, List.drop_left]
      simp only [ByteCursor.rest_skip x.text.length, hskip, hdrop]
    · exact hl.levels
    · simp only [hl.depth]
    · exact hl.lineStart
    · rfl

/-- A newline outside brackets ends an open line. -/
theorem reads_newline (rest : Bytes) (levels : List Nat) :
    Reads ⟨newline :: rest, levels, 0, false, true⟩ [(.newline, [newline])]
      ⟨rest, levels, 0, true, false⟩ := by
  have hlength : gapLength (newline :: rest) = 0 := by
    rw [gapLength.eq_def]
    dsimp only
    rw [if_neg (by decide), if_neg (by decide)]
  apply Reads.of_step
  intro l hl
  have hskip : (l.cursor.skip (gapLength l.cursor.rest)).rest = newline :: rest := by
    rw [ByteCursor.rest_skip, hl.rest, hlength, List.drop_zero]
  have hstep : l.step = l.endLine (l.cursor.skip (gapLength l.cursor.rest)) := by
    rw [Lexer.step, if_neg (by simp [hl.lineStart]), Lexer.resume]
    simp only [hskip]
    rw [if_neg (by decide), if_pos trivial]
  rw [hstep, Lexer.endLine, if_neg (by simp [hl.depth]), if_pos hl.lineOpen]
  refine ⟨?_, ?_⟩
  · simp only [AreTokens, List.map_cons, List.map_nil, LexItem.written?, ByteCursor.token, hskip,
      List.take_succ_cons, List.take_zero]
  · constructor
    · exact hl.running
    · rw [ByteCursor.rest_skip 1, hskip]
      rfl
    · exact hl.levels
    · exact hl.depth
    · rfl
    · rfl

/-- What follows a lexeme is a space, or the newline behind the last one. -/
theorem exists_separation (xs : List SpelledLexeme) (rest : Bytes) :
    ∃ b r, IsSeparation b ∧ xs.flatMap (fun x => space :: x.text) ++ newline :: rest = b :: r := by
  cases xs with
  | nil => exact ⟨newline, rest, .inr rfl, rfl⟩
  | cons x xs => exact ⟨space, _, .inl rfl, rfl⟩

/-- The lexemes of a line are read one after the other. -/
theorem reads_lexemes (xs : List SpelledLexeme) {depth : Nat}
    (h : isBalanced (fun _ => true) depth (xs.map SpelledLexeme.kind) = true) (rest : Bytes)
    (levels : List Nat) :
    Reads ⟨xs.flatMap (fun x => space :: x.text) ++ newline :: rest, levels, depth, false, true⟩
      (xs.map fun x => (x.kind, x.text)) ⟨newline :: rest, levels, 0, false, true⟩ := by
  induction xs generalizing depth with
  | nil =>
      obtain rfl : depth = 0 := by simpa [isBalanced] using h
      exact .refl _
  | cons x xs ih =>
      obtain ⟨-, -, hrest⟩ := isBalanced_cons h
      obtain ⟨b, r, hb, hbehind⟩ := exists_separation xs rest
      have hhead := reads_lexeme x [space] (.inr rfl) hb r levels depth true
      rw [← hbehind] at hhead
      have htext : (x :: xs).flatMap (fun x => space :: x.text) ++ newline :: rest =
          [space] ++ (x.text ++ (xs.flatMap (fun x => space :: x.text) ++ newline :: rest)) := by
        simp
      rw [htext]
      exact hhead.trans (ih hrest)

theorem join_space_cons (first : Bytes) (others : List Bytes) :
    join [space] (first :: others) = first ++ others.flatMap (space :: ·) := by
  induction others generalizing first with
  | nil => simp [join]
  | cons second others ih =>
      have hjoin : join [space] (first :: second :: others) =
          first ++ space :: join [space] (second :: others) := by
        simp [join]
      rw [hjoin, ih]
      rfl

/-- A line is read from its first lexeme to its newline. -/
theorem reads_line {xs : List SpelledLexeme} (hne : xs ≠ [])
    (h : isBalanced (fun _ => true) 0 (xs.map SpelledLexeme.kind) = true) (rest : Bytes)
    (levels : List Nat) :
    Reads ⟨join [space] (xs.map SpelledLexeme.text) ++ newline :: rest, levels, 0, false, false⟩
      (xs.map (fun x => (x.kind, x.text)) ++ [(.newline, [newline])])
      ⟨rest, levels, 0, true, false⟩ := by
  obtain ⟨x, xs, rfl⟩ := List.exists_cons_of_ne_nil hne
  obtain ⟨-, -, hothers⟩ := isBalanced_cons h
  obtain ⟨b, r, hb, hbehind⟩ := exists_separation xs rest
  have hhead := reads_lexeme x [] (.inl rfl) hb r levels 0 false
  rw [← hbehind] at hhead
  have htext : join [space] ((x :: xs).map SpelledLexeme.text) ++ newline :: rest =
      [] ++ (x.text ++ (xs.flatMap (fun x => space :: x.text) ++ newline :: rest)) := by
    rw [List.map_cons, join_space_cons, List.flatMap_map, List.append_assoc, List.nil_append]
  rw [htext]
  exact (hhead.trans (reads_lexemes xs hothers rest levels)).trans (reads_newline rest levels)

/-! ### Levels -/

/-- The levels of the blocks around a line at some level, the innermost first. -/
def levelStack : Nat → List Nat
  | 0 => []
  | level + 1 => 4 * (level + 1) :: levelStack level

theorem headD_levelStack (level : Nat) : (levelStack level).headD 0 = 4 * level := by
  cases level with
  | zero => rfl
  | succ level => rfl

/-- The blocks around a line that end when a line at a lower level comes. -/
theorem span_levelStack (level fall : Nat) :
    ((levelStack (level + fall)).takeWhile (4 * level < ·)).length = fall ∧
      (levelStack (level + fall)).dropWhile (4 * level < ·) = levelStack level := by
  induction fall with
  | zero =>
      cases level with
      | zero => exact ⟨rfl, rfl⟩
      | succ level => simp [levelStack]
  | succ fall ih =>
      have hdeeper : 4 * level < 4 * (level + fall + 1) := by omega
      rw [← Nat.add_assoc, levelStack, List.takeWhile_cons_of_pos (by simp),
        List.dropWhile_cons_of_pos (by simp), List.length_cons]
      exact ⟨congrArg (· + 1) ih.1, ih.2⟩

/-- A line at most one level deeper than the line above it gets its marks, and no fault. -/
theorem layout_levelStack (cursor : ByteCursor) {above level : Nat} (h : level ≤ above + 1) :
    AreTokens (Lexer.layout cursor (levelStack above) (4 * level)).1 (levelMarks above level) ∧
      (Lexer.layout cursor (levelStack above) (4 * level)).2 = levelStack level := by
  unfold Lexer.layout levelMarks
  rw [headD_levelStack]
  by_cases hrise : above < level
  · obtain rfl : level = above + 1 := by omega
    rw [if_pos (by omega), if_pos hrise]
    exact ⟨rfl, rfl⟩
  · obtain ⟨fall, rfl⟩ := Nat.exists_eq_add_of_le (Nat.not_lt.1 hrise)
    obtain ⟨hclosed, hkept⟩ := span_levelStack level fall
    rw [if_neg (by omega), if_neg hrise]
    simp only [hkept, headD_levelStack, if_true, List.append_nil, Nat.add_sub_cancel_left]
    refine ⟨?_, trivial⟩
    rw [AreTokens, List.map_map, List.map_replicate]
    conv => rhs; rw [← hclosed]
    exact List.map_const'

/-- Spaces are counted one by one, as far as a word goes. -/
theorem indentationWidth_replicate {n : Nat} (h : n < 2 ^ 32) :
    indentationWidth (List.replicate n space) = n := by
  have hcount : (List.replicate n space).foldl (fun (width : UInt32) c =>
      if c = space then width + 1 else if c = tab then (width / 8 + 1) * 8 else 0) 0 =
      UInt32.ofNat n := by
    clear h
    induction n with
    | zero => rfl
    | succ n ih =>
        rw [List.replicate_succ', List.foldl_append, ih, UInt32.ofNat_add, List.foldl_cons,
          List.foldl_nil, if_pos rfl]
        rfl
  rw [indentationWidth, hcount, UInt32.toNat_ofNat', Nat.mod_eq_of_lt h]

/-- The beginning of a line settles its level. -/
theorem reads_lineStart {above level : Nat} (h : level ≤ above + 1) (hword : 4 * level < 2 ^ 32)
    {c : UInt8} (hc : IsLexemeStart c) (r : Bytes) :
    Reads ⟨List.replicate (4 * level) space ++ c :: r, levelStack above, 0, true, false⟩
      (levelMarks above level) ⟨c :: r, levelStack level, 0, false, false⟩ := by
  have hblank : isIndentation c = false ∧ c ≠ carriageReturn := by
    have hinline := hc.1
    simp only [isInlineBlank, Bool.or_eq_false_iff, beq_eq_false_iff_ne] at hinline
    refine ⟨?_, hinline.2⟩
    simp only [isIndentation, Bool.or_eq_false_iff, beq_eq_false_iff_ne]
    exact hinline.1
  have hspaces : (List.replicate (4 * level) space ++ c :: r).takeWhile isIndentation =
      List.replicate (4 * level) space := by
    rw [List.takeWhile_append_of_pos, List.takeWhile_cons_of_neg (by simp [hblank.1]),
      List.append_nil]
    intro d hd
    rw [List.eq_of_mem_replicate hd]
    rfl
  apply Reads.of_step
  intro l hl
  obtain ⟨htokens, hlevels⟩ := layout_levelStack
    (l.cursor.skip (List.replicate (4 * level) space).length) h
  have hskip : (l.cursor.skip (List.replicate (4 * level) space).length).rest = c :: r := by
    rw [ByteCursor.rest_skip, hl.rest, List.drop_left]
  have hstep : l.step = ((Lexer.layout (l.cursor.skip (List.replicate (4 * level) space).length)
        (levelStack above) (4 * level)).1,
      { l with
        cursor := l.cursor.skip (List.replicate (4 * level) space).length
        levels := (Lexer.layout (l.cursor.skip (List.replicate (4 * level) space).length)
          (levelStack above) (4 * level)).2
        lineStart := false }) := by
    rw [Lexer.step, if_pos (by simp [hl.lineStart, hl.depth]), Lexer.startLine]
    simp only [hl.rest, hspaces, hl.levels]
    simp only [Lexer.optionalComment, hskip, List.head?_cons, Option.some.injEq, if_neg hc.2.2.2,
      Lexer.optionalReturn, if_neg hblank.2, if_neg hc.2.1, indentationWidth_replicate hword,
      List.nil_append]
  rw [hstep]
  refine ⟨htokens, ?_⟩
  constructor
  · exact hl.running
  · exact hskip
  · exact hlevels
  · exact hl.depth
  · rfl
  · exact hl.lineOpen

/-! ### Programs again -/

theorem length_levelStack (level : Nat) : (levelStack level).length = level := by
  induction level with
  | zero => rfl
  | succ level ih => rw [levelStack, List.length_cons, ih]

/-- At the end of the text all blocks are closed. -/
theorem run_atEnd {level : Nat} {l : Lexer} (hl : l.IsIn ⟨[], levelStack level, 0, true, false⟩) :
    AreTokens l.run.1 (List.replicate level (.dedent, []) ++ [(.eof, [])]) := by
  -- The last line turns out to be empty, and then the end is announced.
  have hfirst : l.step = ([], { l with lineStart := false }) := by
    rw [Lexer.step, if_pos (by simp [hl.lineStart, hl.depth]), Lexer.startLine]
    simp only [hl.rest, List.takeWhile_nil, List.length_nil, ByteCursor.skip, Lexer.optionalComment,
      List.head?_nil, reduceCtorEq, if_false, Lexer.optionalReturn]
  have hsecond : ({ l with lineStart := false } : Lexer).step =
      ({ l with lineStart := false } : Lexer).finish l.cursor := by
    rw [Lexer.step, if_neg (by simp), Lexer.resume]
    simp only [hl.rest, gapLength, ByteCursor.skip]
  have hrun : l.run.1 = (({ l with lineStart := false } : Lexer).finish l.cursor).1 := by
    rw [Lexer.run, if_neg (by simp [hl.running]), hfirst]
    rw [Lexer.run, if_neg (by simp [hl.running]), hsecond]
    rw [Lexer.run, if_pos (by simp [Lexer.finish])]
    simp
  rw [hrun]
  simp only [Lexer.finish, hl.depth, hl.lineOpen, hl.levels, Nat.lt_irrefl, if_false,
    Bool.false_eq_true, List.nil_append]
  refine AreTokens.append ?_ rfl
  rw [AreTokens, List.map_map, List.map_replicate]
  conv => rhs; rw [← length_levelStack level]
  exact List.map_const'

/-- Some lines are read, below a line of a certain level. -/
theorem run_lines {above : Nat} {lines : List LogicalLine}
    (hfirst : ∀ line ∈ lines.head?, line.level ≤ above + 1)
    (hlevels : lines.IsChain fun above line => line.level ≤ above.level + 1)
    (hsize : (lines.flatMap LogicalLine.render).length < 2 ^ 32) {l : Lexer}
    (hl : l.IsIn ⟨lines.flatMap LogicalLine.render, levelStack above, 0, true, false⟩) :
    AreTokens l.run.1 (lineTokens above lines) := by
  induction lines generalizing above l with
  | nil => exact run_atEnd hl
  | cons line lines ih =>
      obtain ⟨hnext, hlevels⟩ := List.isChain_cons.1 hlevels
      obtain ⟨x, xs, hxs⟩ := List.exists_cons_of_ne_nil line.lexemes_ne_nil
      -- The line begins with the first byte of its first lexeme.
      obtain ⟨c, r, hx, hc, -⟩ := first_of_spells (.inl rfl) [] x.spells
      have htext : ∃ r, join [space] (line.lexemes.map SpelledLexeme.text) = c :: r := by
        rw [hxs, List.map_cons, join_space_cons, hx]
        exact ⟨_, rfl⟩
      obtain ⟨r, htext⟩ := htext
      have hrender : (line :: lines).flatMap LogicalLine.render =
          List.replicate (4 * line.level) space ++
            (join [space] (line.lexemes.map SpelledLexeme.text) ++
              newline :: lines.flatMap LogicalLine.render) := by
        simp [LogicalLine.render]
      rw [hrender] at hl hsize
      -- The text is longer than the indentation of a line, and than the lines behind it.
      simp only [List.length_append, List.length_replicate, List.length_cons] at hsize
      have hstart := reads_lineStart (hfirst line rfl) (by omega) hc
        (r ++ newline :: lines.flatMap LogicalLine.render)
      have hline := reads_line line.lexemes_ne_nil line.balanced
        (lines.flatMap LogicalLine.render) (levelStack line.level)
      rw [← List.cons_append, ← htext] at hstart
      obtain ⟨items, l', hitems, hl', hrun⟩ := hstart.trans hline l hl
      have hrest := ih hnext hlevels (by omega) hl'
      rw [hrun, lineTokens]
      have hall := hitems.append hrest
      simpa only [List.append_assoc, List.singleton_append] using hall

/-- A written program is read back if its text is not too long: its lexemes line by line, a newline
behind each line, and as many indents and dedents as its levels rise and fall, without any fault. -/
theorem tokens_render (program : LogicalProgram) (hsize : program.render.length < 2 ^ 32) :
    ∃ lexed, LexedSource.ofSource? program.render = some lexed ∧
      lexed.tokens.map (fun t => (t.kind, t.text)) = lineTokens 0 program.lines ∧
      lexed.faults = [] := by
  have hfirst : ∀ line ∈ program.lines.head?, line.level ≤ 0 + 1 := by
    intro line hline
    rw [program.first_level line hline]
    omega
  have hrun := run_lines hfirst program.level_le hsize (l := Lexer.ofSource program.render)
    ⟨rfl, rfl, rfl, rfl, rfl, rfl⟩
  exact ⟨_, LexedSource.ofSource?_eq_some hsize, hrun.map_tokens, hrun.faults_eq_nil⟩

/-- A class with a method, whose body goes over a line end inside a literal, and a line back at the
outermost level. -/
def sampleProgram : LogicalProgram where
  lines := [
    { level := 0
      lexemes := [⟨_, ascii "class", .word rfl (by decide +kernel)⟩,
        ⟨_, ascii "A", .word rfl (by decide +kernel)⟩,
        ⟨.colon, ascii ":", .operator (by decide)⟩]
      lexemes_ne_nil := by simp
      balanced := by decide },
    { level := 1
      lexemes := [⟨_, ascii "def", .word rfl (by decide +kernel)⟩,
        ⟨_, ascii "f", .word rfl (by decide +kernel)⟩,
        ⟨.leftParen, ascii "(", .operator (by decide)⟩,
        ⟨.rightParen, ascii ")", .operator (by decide)⟩,
        ⟨.colon, ascii ":", .operator (by decide)⟩]
      lexemes_ne_nil := by simp
      balanced := by decide },
    { level := 2
      lexemes := [⟨.string, ascii "r'a\\\n\\''",
        @Spells.string (ascii "r") [singleQuote] (ascii "a\\\n\\'")
          (.inr (by decide)) ⟨singleQuote, by decide, .inl rfl⟩
          (.plain (by decide) (by decide) (by decide) (.escape _ (.escape _ .nil)))⟩]
      lexemes_ne_nil := by simp
      balanced := by decide },
    { level := 0
      lexemes := [⟨_, ascii "x", .word rfl (by decide +kernel)⟩,
        ⟨.operator, ascii "**=", .operator (by decide)⟩,
        ⟨.number, ascii "1e-3", .number (by decide) (by decide)⟩]
      lexemes_ne_nil := by simp
      balanced := by decide }]
  first_level := by simp
  level_le := by decide

theorem tokens_render_sampleProgram :
    sampleProgram.render.length < 2 ^ 32 ∧
      sampleProgram.render = ascii "class A :\n    def f ( ) :\n        r'a\\\n\\''\nx **= 1e-3\n" ∧
      ∃ lexed, LexedSource.ofSource? sampleProgram.render = some lexed ∧
        lexed.tokens.map (fun t => (t.kind, t.text)) = lineTokens 0 sampleProgram.lines ∧
        lexed.faults = [] := by
  have htext : sampleProgram.render =
      ascii "class A :\n    def f ( ) :\n        r'a\\\n\\''\nx **= 1e-3\n" := by cbv
  have hsize : sampleProgram.render.length < 2 ^ 32 := by
    rw [htext]
    decide
  exact ⟨hsize, htext, tokens_render sampleProgram hsize⟩

/-- A name of `n + 1` letters. -/
def longName (n : Nat) : SpelledLexeme where
  kind := .ofWord (byte 'a' :: List.replicate n (byte 'a'))
  text := byte 'a' :: List.replicate n (byte 'a')
  spells := .word (by decide) fun d hd => by
    rw [List.eq_of_mem_replicate hd]
    decide

/-- A word is no bracket. -/
theorem isBalanced_ofWord (word : Bytes) :
    isBalanced (fun _ => true) 0 [TokenKind.ofWord word] = true := by
  unfold TokenKind.ofWord
  cases Keyword.ofSpelling? word <;> rfl

/-- A program that consists of this name. -/
def longProgram (n : Nat) : LogicalProgram where
  lines := [{
    level := 0
    lexemes := [longName n]
    lexemes_ne_nil := List.cons_ne_nil _ _
    balanced := isBalanced_ofWord _ }]
  first_level := by simp
  level_le := .singleton _

theorem length_render_longProgram (n : Nat) : (longProgram n).render.length = n + 2 := by
  simp [LogicalProgram.render, LogicalLine.render, longProgram, longName, join]

/-- No word counts the bytes of this program, so that its end is not found. -/
theorem not_tokens_render_longProgram :
    ¬ ∃ lexed, LexedSource.ofSource? (longProgram (2 ^ 32)).render = some lexed := by
  rintro ⟨lexed, hlexed⟩
  have hsize := length_render_longProgram (2 ^ 32)
  rw [LexedSource.ofSource?_eq_none (by omega)] at hlexed
  cases hlexed

end DocLint
