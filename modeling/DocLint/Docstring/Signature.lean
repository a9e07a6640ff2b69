import DocLint.Text.Bytes

/-!
# Signature lines

A docstring may begin with the signature of what it describes, such as `x, y = frobnicate(a, b=1)`.
Such a line is not a summary.

* `looksLikeSignature_nil`: no text is no signature.
-/

namespace DocLint

open Bytes

/-- A byte of a dotted name. -/
def isDottedByte (c : UInt8) : Bool := isWord c || c == byte '.'

/-- A byte of the targets of an assignment. -/
def isTargetByte (c : UInt8) : Bool := isDottedByte c || c == byte ',' || c == space

/-- A dotted name, an opening parenthesis, any text, and a closing parenthesis at the end.
Whitespace may stand in front. -/
def looksLikeCall (s : Bytes) : Bool :=
  let text := stripStart s
  let arguments := text.dropWhile isDottedByte
  !(text.takeWhile isDottedByte).isEmpty && arguments.head? == some (byte '(') &&
    arguments.tail.getLast? == some (byte ')')

/-- A call, or targets and an equals sign with a call behind it. -/
def looksLikeSignature (s : Bytes) : Bool :=
  let target := s.takeWhile (· ≠ byte '=')
  let assigned := match s.dropWhile (· ≠ byte '=') with
    | [] => false
    | _ :: value => !target.isEmpty && target.all isTargetByte && looksLikeCall value
  assigned || looksLikeCall s

/-- No text is no signature. -/
theorem looksLikeSignature_nil : looksLikeSignature [] = false := rfl

end DocLint
