import DocLint.Source.Token

/-!
# Suppression comments

A comment `# noqa: A, B` suppresses the codes that it lists.  It belongs to the declaration whose
header it trails, or that begins on the line below it.
-/

namespace DocLint

open Bytes

namespace Noqa

/-- A byte between the codes. -/
def isSeparator (c : UInt8) : Bool := c == byte ',' || isSpace c

/-- The codes at the beginning of a text: words between separators, up to the first other byte. -/
def codeList (s : Bytes) : List Bytes :=
  (splitWhere isSeparator (s.takeWhile fun c => isSeparator c || isWord c)).filter fun code =>
    !code.isEmpty

/-- The codes that a comment suppresses. -/
def codes (comment : Bytes) : List Bytes :=
  match comment with
  | [] => []
  | c :: r =>
    let body := stripStart r
    if c = byte '#' ∧ startsWith body (ascii "noqa") then
      match stripStart (body.drop 4) with
      | [] => []
      | d :: list => if d = byte ':' then codeList list else []
    else []

/-- The comment belongs to a declaration whose header goes from line `first` to line `last`: it
stands alone right above the header, or behind code from line `first` on. -/
def isAttached (first : UInt32) (c : Comment) : Bool :=
  if c.ownLine then c.position.line + 1 == first else first ≤ c.position.line

/-- The comments from the line above `first` up to `last`, where the comments are in the order of
their lines. -/
def window (first last : UInt32) (comments : List Comment) : List Comment :=
  (comments.dropWhile fun c => decide (c.position.line < first - 1)).takeWhile fun c =>
    decide (c.position.line ≤ last)

/-- The codes suppressed for a declaration whose header goes from line `first` to line `last`. -/
def codesFor (first last : UInt32) (comments : List Comment) : List Bytes :=
  ((window first last comments).filter (isAttached first)).flatMap fun c => codes c.text

end Noqa

end DocLint
