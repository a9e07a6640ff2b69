import DocLint.Text.Bytes

/-!
# Positions and spans

A position is a line and a column, both counted from one; columns count bytes.  Lines and columns
are 32-bit words and every move wraps around.  A span is half open: its `stop` is the position just
after the last byte.

* `right_right`, `right_zero`: moving right adds up.
* `after_append`: reading a text and then another is reading both.
-/

namespace DocLint

/-- A line and a column of a file. -/
structure Position where
  line : UInt32 := 1
  column : UInt32 := 1
deriving DecidableEq, Repr

namespace Position

/-- Shifted by a number of lines and a number of columns. -/
def move (p : Position) (lines columns : Int) : Position :=
  ⟨p.line + UInt32.ofInt lines, p.column + UInt32.ofInt columns⟩

/-- Shifted by a number of lines. -/
def moveLine (p : Position) (lines : Int) : Position := p.move lines 0

/-- Shifted by a number of columns. -/
def moveColumn (p : Position) (columns : Int) : Position := p.move 0 columns

/-- The position `n` bytes to the right on the same line. -/
def right (p : Position) (n : Nat) : Position := ⟨p.line, p.column + UInt32.ofNat n⟩

/-- The same line at another column. -/
def withColumn (p : Position) (column : UInt32) : Position := ⟨p.line, column⟩

/-- The line counted from the reference's line, zero for that line itself; the column stays. -/
def normalize (p reference : Position) : Position := ⟨p.line - reference.line, p.column⟩

/-- The order of the text: by line, then by column. -/
def compare (p q : Position) : Ordering :=
  (Ord.compare p.line q.line).then (Ord.compare p.column q.column)

/-- The position after one byte: a newline goes to the start of the next line. -/
def step (p : Position) (c : UInt8) : Position :=
  if c = newline then ⟨p.line + 1, 1⟩ else p.right 1

/-- The position after a text. -/
def after (p : Position) (s : Bytes) : Position := s.foldl step p

/-- A position as `line:column`. -/
def render (p : Position) : Bytes :=
  Bytes.decimal p.line.toNat ++ ascii ":" ++ Bytes.decimal p.column.toNat

@[simp] theorem right_zero (p : Position) : p.right 0 = p := by
  simp [right]

@[simp] theorem right_right (p : Position) (a b : Nat) : (p.right a).right b = p.right (a + b) := by
  simp [right, UInt32.ofNat_add, UInt32.add_assoc]

@[simp] theorem after_nil (p : Position) : p.after [] = p := rfl

@[simp] theorem after_cons (p : Position) (c : UInt8) (s : Bytes) :
    p.after (c :: s) = (p.step c).after s := rfl

@[simp] theorem after_append (p : Position) (s t : Bytes) :
    p.after (s ++ t) = (p.after s).after t := List.foldl_append

end Position

/-- The positions from `start` up to, and without, `stop`. -/
structure Span where
  start : Position := {}
  stop : Position := {}
deriving DecidableEq, Repr

namespace Span

/-- The empty span at a position. -/
def point (p : Position) : Span := ⟨p, p⟩

/-- The span of `n` bytes from a position on. -/
def ofLength (p : Position) (n : Nat) : Span := ⟨p, p.right n⟩

end Span

end DocLint
