import DocLint.Diagnostic.Basic
import DocLint.Source.Token

/-!
# Faults of a source text

What can be wrong with a source text, as causes; the wording stands in one place,
`FaultCause.message`.  All faults are reported but one: the text of a parameter is severed if it would
have to reach from a token of the source to one that the layout implies, which has no place in the
source.  Where such a text is taken the program breaks off.
-/

namespace DocLint

/-- Why a source text is refused. -/
inductive FaultCause
  /-- A literal without its closing delimiter. -/
  | unterminatedString
  /-- A byte that begins no token. -/
  | unexpectedByte (c : UInt8)
  /-- A line indented like none of the enclosing blocks. -/
  | unmatchedIndentation
  /-- The text ends inside a bracket. -/
  | openBracket
  /-- Another kind of token was needed. -/
  | expectedKind (wanted found : TokenKind)
  /-- A construct was needed. -/
  | expectedConstruct (wanted : Bytes) (found : TokenKind)
  /-- An item of a parameter list without a name. -/
  | expectedParameterName (found : TokenKind)
  /-- The text of an annotation or a default begins or ends at a token without bytes, but not both. -/
  | severedText
deriving DecidableEq, Repr

namespace FaultCause

/-- The cause in words.  Nothing is said about a severed text. -/
def message : FaultCause → Bytes
  | unterminatedString => ascii "unterminated string literal"
  | unexpectedByte c => ascii "unexpected character '" ++ [c] ++ ascii "'"
  | unmatchedIndentation => ascii "unindent does not match any outer indentation level"
  | openBracket => ascii "unexpected end of file in bracketed expression"
  | expectedKind wanted found =>
    ascii "expected '" ++ wanted.name ++ ascii "', got '" ++ found.name ++ ascii "'"
  | expectedConstruct wanted found =>
    ascii "expected " ++ wanted ++ ascii ", got '" ++ found.name ++ ascii "'"
  | expectedParameterName found => ascii "expected parameter name, got '" ++ found.name ++ ascii "'"
  | severedText => []

end FaultCause

/-- A fault of the source text. -/
structure Fault where
  position : Position
  cause : FaultCause
deriving DecidableEq, Repr

namespace Fault

/-- The error that reports the fault. -/
def diagnostic (f : Fault) : Diagnostic := .error f.position f.cause.message

/-- The fault is not reported: the program breaks off. -/
def isFatal (f : Fault) : Bool := f.cause == .severedText

end Fault

end DocLint
