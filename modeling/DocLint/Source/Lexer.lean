import DocLint.Source.Lexeme

/-!
# The lexer

A lexer walks over a source text and yields items: tokens, comments and faults.  Besides its place
in the text it keeps the indentation levels of the enclosing blocks and the bracket depth.  One step
of it either deals with the beginning of a line or reads one thing in the middle of a line; a run
repeats the step until the end of the file has been announced.

Newlines inside brackets and escaped newlines join lines; blank lines and lines with only a comment
yield no tokens.

The end of a text is where the offset has reached its size.  The offset is kept in a word of 32 bits,
which wraps around: in a text of more bytes than a word can count there is no such place, and the text
is read over and over.  What can be read to its end is read by `LexedSource.ofSource?`.

* `cost_step_lt`: every step either reads something or brings the lexer closer to its end, so that
  a run ends.
* `rest_skip`: skipping drops bytes from the front.
-/

namespace DocLint

open Bytes

/-- A place in a source text: what is still to be read, where that begins, and whether the line has
held nothing but indentation so far. -/
structure ByteCursor where
  rest : Bytes
  position : Position := {}
  offset : Nat := 0
  blankLine : Bool := true
deriving DecidableEq, Repr

namespace ByteCursor

/-- The place after the byte `c`, in front of `r`. -/
def step (cursor : ByteCursor) (c : UInt8) (r : Bytes) : ByteCursor where
  rest := r
  position := cursor.position.step c
  offset := cursor.offset + 1
  blankLine := c == newline || (cursor.blankLine && isIndentation c)

/-- The place `n` bytes further on. -/
def skip : Nat → ByteCursor → ByteCursor
  | 0, cursor => cursor
  | n + 1, cursor =>
    match cursor.rest with
    | [] => cursor
    | c :: r => skip n (cursor.step c r)

/-- The token made of the next `n` bytes. -/
def token (cursor : ByteCursor) (kind : TokenKind) (n : Nat) : Token :=
  ⟨kind, cursor.rest.take n, cursor.position, cursor.offset⟩

/-- A token without bytes, which the layout implies. -/
def mark (cursor : ByteCursor) (kind : TokenKind) : Token :=
  ⟨kind, [], cursor.position, cursor.offset⟩

/-- The comment that begins here; a carriage return at its end is left out. -/
def comment (cursor : ByteCursor) : Comment where
  text := chomp (cursor.rest.take (commentLength cursor.rest))
  position := cursor.position
  offset := cursor.offset
  ownLine := cursor.blankLine

/-- The offset as it is kept: in a word, which wraps around. -/
def offsetWord (cursor : ByteCursor) : UInt32 := UInt32.ofNat cursor.offset

/-- The place is taken for the end of a text of some size. -/
def isEndOf (cursor : ByteCursor) (size : Nat) : Bool := decide (size ≤ cursor.offsetWord.toNat)

/-- Skipping drops bytes from the front. -/
@[simp] theorem rest_skip (n : Nat) (cursor : ByteCursor) :
    (skip n cursor).rest = cursor.rest.drop n := by
  induction n generalizing cursor with
  | zero => rfl
  | succ n ih =>
    unfold skip
    split
    next h => simp [h]
    next c r h => rw [ih, h]; rfl

end ByteCursor

/-- What a lexer yields. -/
inductive LexItem
  | token (t : Token)
  | comment (c : Comment)
  | fault (f : Fault)
deriving DecidableEq, Repr

namespace LexItem

/-- The token, if the item is one. -/
def token? : LexItem → Option Token
  | token t => some t
  | _ => none

/-- The comment, if the item is one. -/
def comment? : LexItem → Option Comment
  | comment c => some c
  | _ => none

/-- The fault, if the item is one. -/
def fault? : LexItem → Option Fault
  | fault f => some f
  | _ => none

end LexItem

/-- A lexer at work. -/
structure Lexer where
  cursor : ByteCursor
  /-- The indentation levels of the enclosing blocks, the innermost first; the outermost level,
  zero, is left out. -/
  levels : List Nat := []
  /-- The number of open brackets. -/
  depth : Nat := 0
  /-- The next thing to read is the beginning of a line. -/
  lineStart : Bool := true
  /-- There have been tokens since the last newline token. -/
  lineOpen : Bool := false
  /-- The end of the file has been announced. -/
  finished : Bool := false
deriving DecidableEq, Repr

namespace Lexer

/-- The lexer at the beginning of a source text. -/
def ofSource (source : Bytes) : Lexer := { cursor := { rest := source } }

/-- The marks that a change of indentation yields, and the levels after it. -/
def layout (cursor : ByteCursor) (levels : List Nat) (width : Nat) : List LexItem × List Nat :=
  if levels.headD 0 < width then
    ([.token (cursor.mark .indent)], width :: levels)
  else
    -- The deeper blocks end here; what is left on top must be the level of this line.
    let closed := levels.takeWhile (width < ·)
    let kept := levels.dropWhile (width < ·)
    let fault :=
      if kept.headD 0 = width then [] else [.fault ⟨cursor.position, .unmatchedIndentation⟩]
    (closed.map (fun _ => .token (cursor.mark .dedent)) ++ fault, kept)

/-- The comment in front of the cursor, if there is one, and the place behind it. -/
def optionalComment (cursor : ByteCursor) : List LexItem × ByteCursor :=
  if cursor.rest.head? = some (byte '#') then
    ([.comment cursor.comment], cursor.skip (commentLength cursor.rest))
  else ([], cursor)

/-- The place after a carriage return, if there is one. -/
def optionalReturn (cursor : ByteCursor) : ByteCursor :=
  if cursor.rest.head? = some carriageReturn then cursor.skip 1 else cursor

/-- Reads the beginning of a line.  A line without tokens is passed over; any other line settles the
indentation. -/
def startLine (l : Lexer) : List LexItem × Lexer :=
  let indentation := l.cursor.rest.takeWhile isIndentation
  let (comments, behind) := optionalComment (l.cursor.skip indentation.length)
  let here := optionalReturn behind
  match here.rest with
  | [] => (comments, { l with cursor := here, lineStart := false })
  | c :: _ =>
    -- A line without tokens says nothing about indentation.
    if c = newline then (comments, { l with cursor := here.skip 1 })
    else
      let (marks, levels) := layout here l.levels (indentationWidth indentation)
      (comments ++ marks, { l with cursor := here, levels, lineStart := false })

/-- Announces the end of the file: the last line ends and all blocks are closed. -/
def finish (l : Lexer) (here : ByteCursor) : List LexItem × Lexer :=
  let fault := if 0 < l.depth then [.fault ⟨here.position, .openBracket⟩] else []
  let line := if l.lineOpen then [.token (here.mark .newline)] else []
  let blocks := l.levels.map fun _ => .token (here.mark .dedent)
  (fault ++ line ++ blocks ++ [.token (here.mark .eof)],
    { l with cursor := here, levels := [], lineOpen := false, finished := true })

/-- The bracket depth after a token of some kind. -/
def depthAfter (depth : Nat) (kind : TokenKind) : Nat :=
  if kind.isOpening then depth + 1 else if kind.isClosing then depth - 1 else depth

/-- Reads one lexeme. -/
def readLexeme (l : Lexer) (here : ByteCursor) (c : UInt8) (r : Bytes) : List LexItem × Lexer :=
  let lexeme := Lexeme.first c r
  let fault := match lexeme.cause with
    | none => []
    | some cause => [.fault ⟨here.position, cause⟩]
  (fault ++ [.token (here.token lexeme.kind lexeme.length)],
    { l with
      cursor := here.skip lexeme.length
      depth := depthAfter l.depth lexeme.kind
      lineOpen := true })

/-- Reads the end of a line, which is a token only after other tokens and outside brackets. -/
def endLine (l : Lexer) (here : ByteCursor) : List LexItem × Lexer :=
  if 0 < l.depth then ([], { l with cursor := here.skip 1 })
  else if l.lineOpen then
    ([.token (here.token .newline 1)],
      { l with cursor := here.skip 1, lineStart := true, lineOpen := false })
  else ([], { l with cursor := here.skip 1, lineStart := true })

/-- Reads on in the middle of a line. -/
def resume (l : Lexer) : List LexItem × Lexer :=
  let here := l.cursor.skip (gapLength l.cursor.rest)
  match here.rest with
  | [] => l.finish here
  | c :: r =>
    if c = byte '#' then
      ([.comment here.comment], { l with cursor := here.skip (commentLength here.rest) })
    else if c = newline then l.endLine here
    else l.readLexeme here c r

/-- Reads one thing. -/
def step (l : Lexer) : List LexItem × Lexer :=
  if l.lineStart && l.depth == 0 then l.startLine else l.resume

/-! ### Steps come to an end -/

/-- What is left to do: the bytes, a line's beginning, and the announcement of the end. -/
def cost (l : Lexer) : Nat :=
  if l.finished then 0 else 2 * l.cursor.rest.length + (if l.lineStart then 1 else 0) + 1

theorem optionalComment_length_le (cursor : ByteCursor) :
    (optionalComment cursor).2.rest.length ≤ cursor.rest.length := by
  unfold optionalComment
  split <;> simp

theorem optionalReturn_length_le (cursor : ByteCursor) :
    (optionalReturn cursor).rest.length ≤ cursor.rest.length := by
  unfold optionalReturn
  split <;> simp

theorem cost_startLine_lt (l : Lexer) (running : l.finished = false) (h : l.lineStart = true) :
    l.startLine.2.cost < l.cost := by
  have hskip : ∀ n, (l.cursor.skip n).rest.length ≤ l.cursor.rest.length := by simp
  have hcomment := optionalComment_length_le
    (l.cursor.skip (l.cursor.rest.takeWhile isIndentation).length)
  have hreturn := optionalReturn_length_le
    (optionalComment (l.cursor.skip (l.cursor.rest.takeWhile isIndentation).length)).2
  have hle := Nat.le_trans hreturn (Nat.le_trans hcomment (hskip _))
  dsimp only [startLine]
  split
  · simp only [cost, running, h]
    simp only [Bool.false_eq_true, if_false, if_true]
    omega
  next c r hrest =>
    split
    · simp only [cost, running, h, ByteCursor.rest_skip, List.length_drop]
      rw [hrest] at hle ⊢
      simp only [List.length_cons] at hle ⊢
      simp only [Bool.false_eq_true, if_false, if_true]
      omega
    · simp only [cost, running, h]
      simp only [Bool.false_eq_true, if_false, if_true]
      omega

theorem cost_resume_lt (l : Lexer) (running : l.finished = false) :
    l.resume.2.cost < l.cost := by
  have hskip : (l.cursor.skip (gapLength l.cursor.rest)).rest.length ≤ l.cursor.rest.length := by
    simp
  dsimp only [resume]
  split
  · simp [cost, finish, running]
  next c r hrest =>
    rw [hrest] at hskip
    simp only [List.length_cons] at hskip
    split
    next hc =>
      have hpos : 0 < commentLength (l.cursor.skip (gapLength l.cursor.rest)).rest := by
        rw [hrest, hc]
        simp [commentLength, byte, newline, Char.toUInt8]
      simp only [cost, running, ByteCursor.rest_skip (commentLength _), List.length_drop, hrest,
        List.length_cons] at hpos ⊢
      simp only [Bool.false_eq_true, if_false]
      omega
    · split
      · unfold endLine
        split
        · simp only [cost, running, ByteCursor.rest_skip 1, List.length_drop, hrest,
            List.length_cons]
          simp only [Bool.false_eq_true, if_false]
          omega
        · split
          all_goals
            simp only [cost, running, ByteCursor.rest_skip 1, List.length_drop, hrest,
              List.length_cons]
            simp only [Bool.false_eq_true, if_false, if_true]
            omega
      · have hpos := Lexeme.length_pos c r
        simp only [readLexeme, cost, running, ByteCursor.rest_skip (Lexeme.first c r).length,
          List.length_drop, hrest, List.length_cons]
        simp only [Bool.false_eq_true, if_false]
        omega

/-- A step of an unfinished lexer leaves less to do. -/
theorem cost_step_lt (l : Lexer) (running : l.finished = false) : l.step.2.cost < l.cost := by
  unfold step
  split
  next h =>
    simp only [Bool.and_eq_true] at h
    exact cost_startLine_lt l running h.1
  · exact cost_resume_lt l running

/-! ### Runs -/

/-- Everything that the lexer still yields, and the lexer at its end. -/
def run (l : Lexer) : List LexItem × Lexer :=
  if l.finished then ([], l)
  else
    let rest := run l.step.2
    (l.step.1 ++ rest.1, rest.2)
termination_by l.cost
decreasing_by
  rename_i h
  exact cost_step_lt l (by simpa using h)

end Lexer

/-- A lexer that hands out its tokens one at a time; `pending` are those it has already read. -/
structure TokenStream where
  pending : List Token := []
  lexer : Lexer
deriving DecidableEq, Repr

namespace TokenStream

/-- The next token.  At the end of the file that is the end mark, as often as asked. -/
def next (s : TokenStream) : Token × TokenStream :=
  match s.pending with
  | t :: pending => (t, { s with pending })
  | [] =>
    if s.lexer.finished then (s.lexer.cursor.mark .eof, s)
    else next ⟨s.lexer.step.1.filterMap LexItem.token?, s.lexer.step.2⟩
termination_by s.lexer.cost
decreasing_by
  rename_i h
  exact Lexer.cost_step_lt s.lexer (by simpa using h)

/-- All of the text has been read. -/
def atEnd (s : TokenStream) : Bool := s.lexer.cursor.rest.isEmpty

end TokenStream

/-- A source text read to its end. -/
structure LexedSource where
  items : List LexItem
  lexer : Lexer
deriving DecidableEq, Repr

namespace LexedSource

/-- Reads a whole source text. -/
def ofSource (source : Bytes) : LexedSource :=
  let result := (Lexer.ofSource source).run
  ⟨result.1, result.2⟩

/-- Reads a whole source text, if its end is found. -/
def ofSource? (source : Bytes) : Option LexedSource :=
  let lexed := ofSource source
  if lexed.lexer.cursor.isEndOf source.length then some lexed else none

/-- The tokens in order; the last one marks the end of the file. -/
def tokens (s : LexedSource) : List Token := s.items.filterMap LexItem.token?

/-- The comments in order. -/
def comments (s : LexedSource) : List Comment := s.items.filterMap LexItem.comment?

/-- The faults in order. -/
def faults (s : LexedSource) : List Fault := s.items.filterMap LexItem.fault?

/-- The stream of what follows the last token. -/
def stream (s : LexedSource) : TokenStream := { lexer := s.lexer }

end LexedSource

end DocLint
