import DocLint.Docstring.Literal

/-!
# Lines of a docstring

A line carries the position of its first byte, so that every piece of it can be found in the file.

* `length_lines`: a literal has as many docstring lines as its body has lines.
-/

namespace DocLint

open Bytes

/-- A line of a docstring, with the position of its first byte. -/
structure DocLine where
  position : Position
  text : Bytes
deriving DecidableEq, Repr

/-- A piece of text and where it stands. -/
structure Fragment where
  value : Bytes
  span : Span
deriving DecidableEq, Repr

namespace DocLine

/-- The position of the `k`-th byte. -/
def column (line : DocLine) (k : Nat) : Position := line.position.right k

/-- The position just after the line. -/
def stop (line : DocLine) : Position := line.column line.text.length

/-- The line holds nothing but whitespace. -/
def isBlank (line : DocLine) : Bool := Bytes.isBlank line.text

/-- The number of leading whitespace bytes. -/
def leading (line : DocLine) : Nat := Bytes.leading line.text

/-- The bytes from the `k`-th on, as a line of their own. -/
def drop (line : DocLine) (k : Nat) : DocLine := ⟨line.column k, line.text.drop k⟩

/-- The line without up to `indent` bytes of its leading whitespace. -/
def dedent (line : DocLine) (indent : Nat) : DocLine := line.drop (min indent line.leading)

/-- The piece of the line that holds `value` from the `k`-th byte on. -/
def fragment (line : DocLine) (k : Nat) (value : Bytes) : Fragment :=
  ⟨value, ⟨line.column k, line.column (k + value.length)⟩⟩

/-- The line without whitespace at its ends. -/
def stripped (line : DocLine) : Fragment := line.fragment line.leading (strip line.text)

end DocLine

/-- Consecutive lines. -/
abbrev Paragraph := List DocLine

namespace Paragraph

/-- From the first byte of the first line to the end of the last. -/
def span (p : Paragraph) : Span :=
  match p.head?, p.getLast? with
  | some first, some last => ⟨first.position, last.stop⟩
  | _, _ => {}

/-- The lines without the blank ones at either end. -/
def trim (p : Paragraph) : Paragraph :=
  ((p.reverse.dropWhile DocLine.isBlank).reverse).dropWhile DocLine.isBlank

/-- The stripped lines in one, with spaces between them. -/
def flatten (p : Paragraph) : Bytes :=
  strip (join [space] (p.map fun line => strip line.text))

end Paragraph

namespace DocLiteral

/-- The lines of the body: the first stands behind the opening delimiter, every other one at the
beginning of its line in the file. -/
def lines (literal : DocLiteral) : List DocLine :=
  (Bytes.lines literal.body).mapIdx fun i text =>
    if i = 0 then ⟨literal.bodyStart, text⟩
    else ⟨⟨literal.bodyStart.line + UInt32.ofNat i, 1⟩, text⟩

/-- There are as many docstring lines as lines in the body. -/
theorem length_lines (literal : DocLiteral) :
    literal.lines.length = (Bytes.lines literal.body).length := by
  simp [lines]

/-- The texts of the lines are the lines of the body. -/
theorem map_text_lines (literal : DocLiteral) :
    literal.lines.map DocLine.text = Bytes.lines literal.body := by
  apply List.ext_getElem
  · simp [lines]
  · intro i _ _
    simp only [lines, List.getElem_map, List.getElem_mapIdx]
    split <;> rfl

end DocLiteral

end DocLint
