import DocLint.Text.Position

/-!
# Docstring literals

A docstring literal without its delimiters, and where its parts stand in the file.  Escapes in the
body are left as they are written.
-/

namespace DocLint

open Bytes

/-- The text of a docstring as the source file holds it. -/
structure DocLiteral where
  /-- The text between the delimiters. -/
  body : Bytes
  /-- The first byte of the literal, be it a letter in front or a quote. -/
  start : Position
  /-- The first byte after the opening delimiter. -/
  bodyStart : Position
  /-- The position just after the closing delimiter. -/
  stop : Position
  /-- The number of columns left of the literal. -/
  indent : UInt32
deriving DecidableEq, Repr

namespace DocLiteral

/-- The number of quotes in each delimiter of a literal that begins with a quote: three if the text
has room for two such delimiters and begins with equal quotes, else one. -/
def delimiterLength (quoted : Bytes) : Nat :=
  match quoted with
  | a :: b :: c :: _ => if 6 ≤ quoted.length ∧ b = a ∧ c = a then 3 else 1
  | _ => 1

/-- The literal with the given text, letters in front and quotes included. -/
def ofText (text : Bytes) (start : Position) : DocLiteral :=
  let mark := text.takeWhile fun c => !isQuote c
  let quoted := text.drop mark.length
  let quotes := delimiterLength quoted
  let opened := min quotes quoted.length
  let closed := if opened + quotes ≤ quoted.length then quoted.length - quotes else opened
  { body := (quoted.take closed).drop opened
    start
    bodyStart := start.right (mark.length + opened)
    stop := start.after text
    indent := start.column - 1 }

end DocLiteral

end DocLint
