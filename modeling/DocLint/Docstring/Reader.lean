import DocLint.Docstring.Line

/-!
# Reading lines

A reader stands between the lines it has read and the lines ahead.  Reading never fails: past the
end there is nothing.  A section boundary is a line that is followed by an underline, or an index
directive.

* `lines_take`: reading moves lines from one side to the other and loses none.
-/

namespace DocLint

open Bytes

/-- A line made of one repeated `-` or `=`. -/
def isUnderline (s : Bytes) : Bool :=
  match s with
  | [] => false
  | c :: r => (c == byte '-' || c == byte '=') && r.all (· == c)

/-- How an index directive begins. -/
def indexDirective : Bytes := ascii ".. index::"

/-- A section begins at the first of these lines: it is not blank, and it is an index directive or
stands above an underline. -/
def isBoundary : List DocLine → Bool
  | [] => false
  | header :: rest =>
    let text := strip header.text
    let next := match rest with
      | [] => []
      | line :: _ => strip line.text
    !text.isEmpty && (startsWith text indexDirective || isUnderline next)

/-- The number of lines before the next blank line or boundary. -/
def paragraphLength : List DocLine → Nat
  | [] => 0
  | line :: rest =>
    if line.isBlank || isBoundary (line :: rest) then 0 else paragraphLength rest + 1

/-- The number of lines before the next boundary. -/
def boundaryDistance : List DocLine → Nat
  | [] => 0
  | line :: rest => if isBoundary (line :: rest) then 0 else boundaryDistance rest + 1

/-- The number of lines up to the next boundary after the first line. -/
def chunkLength : List DocLine → Nat
  | [] => 0
  | _ :: rest => boundaryDistance rest + 1

/-- A place among the lines of a docstring; the lines already read are kept nearest first. -/
structure LineReader where
  seen : List DocLine := []
  rest : List DocLine
deriving DecidableEq, Repr

namespace LineReader

/-- The number of lines already read. -/
def position (r : LineReader) : Nat := r.seen.length

/-- All the lines, read and unread. -/
def lines (r : LineReader) : List DocLine := r.seen.reverse ++ r.rest

/-- No line is left. -/
def atEnd (r : LineReader) : Bool := r.rest.isEmpty

/-- The reader stands at a section boundary. -/
def atBoundary (r : LineReader) : Bool := isBoundary r.rest

/-- The text `k` lines ahead, empty past the end. -/
def peek (r : LineReader) (k : Nat) : Bytes :=
  match r.rest[k]? with
  | none => []
  | some line => line.text

/-- The line read last. -/
def previous (r : LineReader) : Option DocLine := r.seen.head?

/-- Reads `n` lines. -/
def take (r : LineReader) (n : Nat) : List DocLine × LineReader :=
  (r.rest.take n, ⟨(r.rest.take n).reverse ++ r.seen, r.rest.drop n⟩)

/-- Reads one line. -/
def read (r : LineReader) : Option DocLine × LineReader := (r.rest.head?, (r.take 1).2)

/-- Reads the lines that satisfy `p`, up to the first that does not. -/
def readWhile (r : LineReader) (p : DocLine → Bool) : List DocLine × LineReader :=
  r.take (r.rest.takeWhile p).length

/-- Reads up to the next blank line or section boundary. -/
def readParagraph (r : LineReader) : List DocLine × LineReader := r.take (paragraphLength r.rest)

/-- Reads one line at least, then on to the next section boundary. -/
def readUntilBoundary (r : LineReader) : List DocLine × LineReader := r.take (chunkLength r.rest)

/-- Passes over blank lines. -/
def skipBlank (r : LineReader) : LineReader := (r.readWhile DocLine.isBlank).2

/-- Reading moves lines from one side to the other. -/
@[simp] theorem lines_take (r : LineReader) (n : Nat) : (r.take n).2.lines = r.lines := by
  simp [take, lines]

@[simp] theorem rest_take (r : LineReader) (n : Nat) : (r.take n).2.rest = r.rest.drop n := rfl

theorem length_rest_skipBlank_le (r : LineReader) :
    r.skipBlank.rest.length ≤ r.rest.length := by
  simp [skipBlank, readWhile]

end LineReader

end DocLint
