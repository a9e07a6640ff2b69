import DocLint.Check.Basic

/-!
# Checks of the summary

The rules about the summary, the extended summary and the examples.
-/

namespace DocLint

namespace Check

open Bytes

/-- The lines of the summary, none if there is no summary. -/
def summaryLines (doc : Docstring) : Paragraph :=
  match doc.summary with
  | none => []
  | some s => s.summary

/-- SS01: there is a summary. -/
def summaryMissing (_ : Declaration) (doc : Docstring) : CheckResult :=
  if (summaryLines doc).isEmpty then
    let bodyStart := match doc.lines with
      | [] => doc.start
      | line :: _ => line.position
    one (Code.ss01.report ⟨doc.start, bodyStart⟩ (suggest "Add a short summary in a single line."))
  else silent

/-- SS02: the summary does not begin with a lower-case letter. -/
def summaryCapital (_ : Declaration) (doc : Docstring) : CheckResult :=
  match summaryLines doc with
  | [] => silent
  | first :: _ =>
    match stripStart first.text with
    -- The lines of a summary are not blank, so that there is a first byte.
    | [] => .error .outOfRange
    | c :: _ =>
      if isLower c then
        one (Code.ss02.report (.ofLength (first.column first.leading) 1)
          (some (ascii "Replace `" ++ [c] ++ ascii "` with `" ++ [upperByte c] ++ ascii "`.")))
      else silent

/-- SS03: the summary ends with a period. -/
def summaryPeriod (_ : Declaration) (doc : Docstring) : CheckResult :=
  match (summaryLines doc).getLast? with
  | none => silent
  | some last =>
    let content := stripEnd last.text
    if endsWith content (ascii ".") then silent
    else
      one (Code.ss03.report ⟨last.column (leading content), last.column content.length⟩
        (suggest "Insert a period."))

/-- The number of lines between the beginning of the docstring and a line of it. -/
def lineIndex (doc : Docstring) (line : DocLine) : Nat :=
  match doc.lines with
  | [] => 0
  | first :: _ => (line.position.line - first.position.line).toNat

/-- SS04: the summary is indented like the docstring. -/
def summaryIndent (_ : Declaration) (doc : Docstring) : CheckResult :=
  match summaryLines doc with
  | [] => silent
  | first :: _ =>
    -- Where there is a summary, the docstring has lines.
    if doc.lines.isEmpty then .error .outOfRange
    else
      let expected := doc.expectedIndent (lineIndex doc first)
      if first.leading = expected then silent
      else if expected < first.leading then
        one (Code.ss04.report ⟨first.column expected, first.column first.leading⟩
          (suggest "Remove leading whitespace."))
      else
        one (Code.ss04.report (.point (first.column first.leading))
          (some (ascii "Indent the summary by " ++ decimal expected ++ ascii " spaces.")))

/-- SS05: the first of several words in the summary of a function does not end in `s`. -/
def summaryVerb (d : Declaration) (doc : Docstring) : CheckResult :=
  match summaryLines doc with
  | [] => silent
  | first :: _ =>
    let start := first.leading
    let stop := start + ((stripStart first.text).takeWhile fun c => !isSpace c).length
    if d.form.isCallable && decide (stop < first.text.length) then do
      let word ← slice first.text start (stop - start)
      if endsWith word (ascii "s") then
        let stem ← slice word 0 (word.length - 1)
        one (Code.ss05.report (.ofLength (first.column start) word.length)
          (some (ascii "Use `" ++ stem ++ ascii "` instead of `" ++ word ++ ascii "`.")))
      else silent
    else silent

/-- SS06: the summary is one line. -/
def summaryLength (_ : Declaration) (doc : Docstring) : CheckResult :=
  match (summaryLines doc).head?, (summaryLines doc).getLast? with
  | some first, some last =>
    if (summaryLines doc).length < 2 then silent
    else
      one (Code.ss06.report ⟨first.column first.leading, last.stop⟩
        (suggest "Shorten the summary or move the rest to the extended summary."))
  | _, _ => silent

/-- ES01: there is an extended summary where there is a summary. -/
def extendedMissing (_ : Declaration) (doc : Docstring) : CheckResult :=
  match doc.summary with
  | none => silent
  | some s =>
    if s.summary.isEmpty || s.extended.isSome then silent
    else one (Code.es01.report (.ofLength doc.start 3) (suggest "Add an extended summary."))

/-- EX01: there are examples. -/
def examplesMissing (d : Declaration) (doc : Docstring) : CheckResult :=
  if doc.hasSection SectionName.examples then silent
  else
    let span := match d.name? with
      | some name => name.span
      | none => .point doc.start
    one (Code.ex01.report span (suggest "Add an Examples section."))

end Check

end DocLint
