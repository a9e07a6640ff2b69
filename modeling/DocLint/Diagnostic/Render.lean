import DocLint.Diagnostic.Basic

/-!
# Diagnostics as text

Three forms.  `located` is one line with path, position and severity.  `compact` is one line with
the whole span.  `detailed` shows the source: a header, the line with the finding (and the line
above it, unless that one is above the declaration), carets below the span and the suggestion below
the last caret.
-/

namespace DocLint

namespace Diagnostic

/-- `path:line:column: severity: message`, the code in brackets after the severity if there is one.
-/
def located (path : Bytes) (d : Diagnostic) : Bytes :=
  let code := if d.code = [] then [] else ascii "[" ++ d.code ++ ascii "]"
  path ++ ascii ":" ++ d.span.start.render ++ ascii ": " ++ d.severity.name ++ code ++ ascii ": " ++
    d.message

/-- `path:line:column:line:column: code message` and a newline. -/
def compact (path : Bytes) (d : Diagnostic) : Bytes :=
  path ++ ascii ":" ++ d.span.start.render ++ ascii ":" ++ d.span.stop.render ++ ascii ": " ++
    d.code ++ ascii " " ++ d.message ++ [newline]

/-- The text of a line of the source, its final carriage return left out. -/
def sourceLine? (source : List Bytes) (line : Nat) : Option Bytes :=
  if line = 0 then none else source[line - 1]?.map Bytes.chomp

/-- The numbers of the lines to show: the one of the finding, and the one above it if that is not
above the reference. -/
def shownLines (d : Diagnostic) (reference : Position) : List Nat :=
  let line := d.span.start.line.toNat
  if reference.line < d.span.start.line then [line - 1, line] else [line]

/-- The number of carets below the finding, given the text of its line: the width of a span on one
line, the rest of the line for a longer one, and at least one. -/
def caretCount (d : Diagnostic) (text : Bytes) : Nat :=
  let start := d.span.start
  let width : Int :=
    if d.span.stop.line = start.line then
      (d.span.stop.column.toNat : Int) - start.column.toNat
    else (text.length : Int) + 1 - start.column.toNat
  (max 1 width).toNat

/-- The report with the source, shown relative to a reference position: the start of the
declaration. -/
def detailed (path : Bytes) (d : Diagnostic) (source : List Bytes) (reference : Position) : Bytes :=
  let start := d.span.start
  let gutter := (Bytes.decimal start.line.toNat).length
  let pad := List.replicate gutter space
  let header := ascii "error[" ++ d.code ++ ascii "]: " ++ d.message ++ [newline] ++
    pad ++ ascii "--> " ++ path ++ ascii ":" ++ start.render ++ [newline]
  let shown := (d.shownLines reference).flatMap fun line =>
    match sourceLine? source line with
    | none => []
    | some text =>
      Bytes.padRight gutter (Bytes.decimal line) ++ ascii " | " ++ text ++ [newline]
  let carets := d.caretCount ((sourceLine? source start.line.toNat).getD [])
  let margin := pad ++ ascii " | " ++ List.replicate (start.column - 1).toNat space
  -- The suggestion hangs below the last caret.
  let suggestion := match d.suggestion with
    | none => []
    | some text =>
      let below := margin ++ List.replicate (carets - 1) space
      [newline] ++ below ++ ascii "|" ++ [newline] ++ below ++ text
  header ++ shown ++ margin ++ List.replicate carets (byte '^') ++ suggestion ++ [newline]

end Diagnostic

end DocLint
