import DocLint.Diagnostic.Code

/-!
# Collecting diagnostics

A collector keeps the diagnostics of a run in order, counts the errors and the warnings among them,
and shows each new one to a handler while one is installed.  The handler works on a state of its
own, which survives the handler's removal and the emptying of the collector.

* `errors_emit`, `warnings_emit`: which diagnostics are counted.
* `entries_emit`: a new diagnostic comes last.
-/

namespace DocLint

/-- The diagnostics of a run, with a handler over states `σ`. -/
structure Collector (σ : Type) where
  entries : List Diagnostic := []
  errors : UInt32 := 0
  warnings : UInt32 := 0
  handler : Option (Diagnostic → σ → σ) := none
  state : σ

/-- Why nothing was recorded. -/
inductive CollectorError
  /-- The catalogue has no such code. -/
  | unknownCode (name : Bytes)
  /-- The message of the code could not be filled. -/
  | message (failure : Failure)
deriving DecidableEq, Repr

namespace CollectorError

/-- The error in words. -/
def text : CollectorError → Bytes
  | unknownCode name => ascii "unknown diagnostic code `" ++ name ++ ascii "`"
  | message failure => failure.reason

end CollectorError

namespace Collector

variable {σ : Type}

/-- Records a diagnostic, counts it and shows it to the handler. -/
def emit (c : Collector σ) (d : Diagnostic) : Collector σ :=
  { c with
    entries := c.entries ++ [d]
    errors := if d.severity = .error then c.errors + 1 else c.errors
    warnings := if d.severity = .warning then c.warnings + 1 else c.warnings
    state := match c.handler with
      | none => c.state
      | some handle => handle d c.state }

/-- Records an error of the source text. -/
def error (c : Collector σ) (p : Position) (message : Bytes) : Collector σ :=
  c.emit (.error p message)

/-- Records a finding of the catalogue; with an unknown code or a missing argument, nothing. -/
def reportCode (c : Collector σ) (name : Bytes) (span : Span) (suggestion : Option Bytes)
    (arguments : List (Bytes × Bytes)) : Except CollectorError (Collector σ) :=
  match Code.ofName? name with
  | none => .error (.unknownCode name)
  | some code =>
    match code.report span suggestion arguments with
    | .error failure => .error (.message failure)
    | .ok d => .ok (c.emit d)

/-- Shows every diagnostic from now on to `handle`. -/
def setHandler (c : Collector σ) (handle : Diagnostic → σ → σ) : Collector σ :=
  { c with handler := some handle }

/-- Shows the diagnostics from now on to nobody. -/
def removeHandler (c : Collector σ) : Collector σ := { c with handler := none }

/-- Forgets the diagnostics and their numbers. -/
def clear (c : Collector σ) : Collector σ := { c with entries := [], errors := 0, warnings := 0 }

/-- The diagnostics so far, and the collector without them. -/
def take (c : Collector σ) : List Diagnostic × Collector σ := (c.entries, c.clear)

/-- Some error was recorded. -/
def hasErrors (c : Collector σ) : Bool := 0 < c.errors

@[simp] theorem entries_emit (c : Collector σ) (d : Diagnostic) :
    (c.emit d).entries = c.entries ++ [d] := rfl

@[simp] theorem errors_emit (c : Collector σ) (d : Diagnostic) :
    (c.emit d).errors = if d.severity = .error then c.errors + 1 else c.errors := rfl

@[simp] theorem warnings_emit (c : Collector σ) (d : Diagnostic) :
    (c.emit d).warnings = if d.severity = .warning then c.warnings + 1 else c.warnings := rfl

end Collector

end DocLint
