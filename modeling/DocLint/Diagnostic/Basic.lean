import DocLint.Text.Position

/-!
# Diagnostics

A diagnostic is one finding about a file: where it is, which catalogue code it carries, the message
and, for most codes, a suggestion.  Findings about docstrings are warnings; faults of the source
text itself are errors without a code.
-/

namespace DocLint

/-- How grave a diagnostic is. -/
inductive Severity
  | note
  | warning
  | error
deriving DecidableEq, Repr

namespace Severity

/-- The word that names a severity. -/
def name : Severity → Bytes
  | note => ascii "note"
  | warning => ascii "warning"
  | error => ascii "error"

end Severity

/-- One finding.  A terminating finding is the last one of its declaration. -/
structure Diagnostic where
  severity : Severity := .warning
  code : Bytes := []
  span : Span := {}
  message : Bytes := []
  suggestion : Option Bytes := none
  terminates : Bool := false
deriving DecidableEq, Repr

namespace Diagnostic

/-- An error of the source text: it has no code and no suggestion. -/
def error (p : Position) (message : Bytes) : Diagnostic :=
  { severity := .error, span := .point p, message }

end Diagnostic

end DocLint
