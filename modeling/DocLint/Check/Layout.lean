import DocLint.Check.Basic

/-!
# Checks of the layout

The rules about the lines of a docstring as a whole: where it begins and ends, blank lines and tabs,
the names and the order of the sections, and the directives.
-/

namespace DocLint

namespace Check

open Bytes

/-! ### Lines -/

/-- GL01: a docstring of several lines begins on its second line. -/
def openingLine (_ : Declaration) (doc : Docstring) : CheckResult :=
  let blank := (doc.lines.takeWhile DocLine.isBlank).length
  match doc.lines.drop blank with
  | [] => silent
  | first :: _ =>
    if doc.lines.length < 2 ∨ blank = 1 then silent
    else
      one (Code.gl01.report (.point (first.column first.leading))
        (if blank = 0 then suggest "Insert a line break after the opening quotes."
         else suggest "Remove the empty lines before the summary."))

/-- GL02: the closing quotes of a docstring of several lines stand alone on its last line. -/
def closingLine (_ : Declaration) (doc : Docstring) : CheckResult :=
  let blank := Paragraph.blankBelow doc.lines
  match doc.lines.getLast? with
  | none => silent
  | some last =>
    if doc.lines.length < 2 ∨ blank = 1 then silent
    else
      one (Code.gl02.report (.point last.stop)
        (if blank = 0 then suggest "Move the closing quotes to their own line."
         else suggest "Remove empty line."))

/-- GL03: no two blank lines follow each other before the last line. -/
def doubleBlank (_ : Declaration) (doc : Docstring) : CheckResult :=
  let body := doc.lines.dropLast
  ((body.zip body.tail).filter fun (a, b) => a.isBlank && b.isBlank).mapM fun (a, b) =>
    Code.gl03.report ⟨doc.lineAnchor a, doc.lineAnchor b⟩ (suggest "Remove the extra empty line.")

/-- From the first tab in the indentation of a line to just after the last one. -/
def tabSpan? (line : DocLine) : Option Span :=
  let indentation := line.text.takeWhile isSpace
  if tab ∈ indentation then
    let first := (indentation.takeWhile (· ≠ tab)).length
    let behind := (indentation.reverse.takeWhile (· ≠ tab)).length
    some ⟨line.column first, line.column (indentation.length - behind)⟩
  else none

/-- GL05: no line is indented with tabs. -/
def tabs (_ : Declaration) (doc : Docstring) : CheckResult :=
  (doc.lines.filterMap tabSpan?).mapM fun span =>
    Code.gl05.report span (suggest "Replace tabs with spaces.")

/-! ### Sections -/

/-- The section has one of the allowed names. -/
def isAllowed (s : DocSection) : Bool := SectionName.allowed.contains s.name.value

/-- GL06: every section has one of the allowed names. -/
def unknownSection (_ : Declaration) (doc : Docstring) : CheckResult :=
  (doc.sections.filter fun s => !isAllowed s).mapM fun s =>
    Code.gl06.report s.name.span (suggest "Remove section or fix spelling.")
      [(ascii "section", s.name.value)]

/-- The allowed names that the docstring uses, in the order in which it should use them. -/
def expectedSections (doc : Docstring) : List Bytes := SectionName.allowed.filter doc.hasSection

/-- GL07: the allowed sections come in their order. -/
def sectionOrder (_ : Declaration) (doc : Docstring) : CheckResult :=
  let actual := doc.sections.filter isAllowed
  (((expectedSections doc).zip actual).filter fun (name, s) => name != s.name.value).mapM
    fun (name, s) =>
      Code.gl07.report s.name.span (some (ascii "Section should be `" ++ name ++ ascii "`."))
        [(ascii "actual", s.name.value), (ascii "expected", name)]

/-! ### Directives -/

/-- How a deprecation warning begins. -/
def deprecationMarker : Bytes := ascii ".. deprecated::"

/-- Where the deprecation warnings in some lines begin, at most one a line. -/
def deprecations (lines : List DocLine) : List Span :=
  lines.filterMap fun line =>
    (offsetOf? deprecationMarker line.text).map fun k =>
      .ofLength (line.column k) deprecationMarker.length

/-- The deprecation warnings of the summary and the extended summary. -/
def summaryDeprecations (s : DocSummary) : List Span :=
  deprecations s.summary ++ deprecations (s.extended.getD [])

/-- The line on which a deprecation warning belongs: the first one of the extended summary, or of
the summary if there is no other. -/
def deprecationLine (s : DocSummary) : UInt32 :=
  match (s.extended.getD s.summary).head? with
  | none => 0
  | some line => line.position.line

/-- The deprecation warnings that stand on another line than they should. -/
def misplaced (s : DocSummary) : List Span :=
  (summaryDeprecations s).filter fun span => span.start.line != deprecationLine s

/-- GL09: a deprecation warning comes first in the extended summary. -/
def deprecationPlace (_ : Declaration) (doc : Docstring) : CheckResult :=
  match doc.summary with
  | none => silent
  | some s =>
    match (summaryDeprecations s).head? with
    | none => silent
    | some span =>
      if span.start.line = deprecationLine s then silent
      else
        one (Code.gl09.report span (some (ascii "Move deprecation warning to line " ++
          decimal (deprecationLine s).toNat ++ ascii ".")))

/-- The names of the directives that are looked for. -/
def directiveNames : List Bytes :=
  [ascii "versionadded", ascii "versionchanged", ascii "deprecated"]

/-- The directive that a line begins with, in letters of either case: the offset of its dots and its
name as written, unless two colons follow. -/
def bareDirective? (s : Bytes) : Option (Nat × Bytes) :=
  let text := stripStart s
  let behind := text.drop 3
  if startsWith text (ascii ".. ") then
    match directiveNames.find? fun name => startsWith (toLower behind) name with
    | none => none
    | some name =>
      if startsWith (behind.drop name.length) (ascii "::") then none
      else some (leading s, behind.take name.length)
  else none

/-- Reads the directive that a line begins with, piece by piece. -/
def readDirective (s : Bytes) : Except Failure (Option (Nat × Bytes)) := do
  let margin := leading s
  let dots ← slice s margin 3
  if dots = ascii ".. " then
    let behind ← slice s (margin + 3) s.length
    match directiveNames.find? fun name => startsWith (toLower behind) name with
    | none => return none
    | some name =>
      let colons ← slice s (margin + 3 + name.length) 2
      if colons = ascii "::" then return none
      else
        let written ← slice s (margin + 3) name.length
        return some (margin, written)
  else return none

/-- GL10: two colons follow the name of a directive. -/
def directiveColons (_ : Declaration) (doc : Docstring) : CheckResult := do
  let found ← readEach (fun line =>
    (readDirective line.text).map fun directive => directive.map fun found => (line, found)) doc.lines
  found.mapM fun (line, k, name) =>
    Code.gl10.report (.ofLength (line.column k) (3 + name.length))
      (suggest "Fix the directive by inserting `::`.") [(ascii "directive", name)]

/-- Some lines in words: `line 1`, `lines 1 and 2`, `lines 1, 2 and 3`. -/
def lineList (lines : List UInt32) : Bytes :=
  match lines.getLast? with
  | none => []
  | some last =>
    let others := lines.dropLast
    if others.isEmpty then ascii "line " ++ decimal last.toNat
    else
      ascii "lines " ++ join (ascii ", ") (others.map fun line => decimal line.toNat) ++
        ascii " and " ++ decimal last.toNat

/-- GLE01: there is one deprecation warning. -/
def repeatedDeprecation (_ : Declaration) (doc : Docstring) : CheckResult :=
  match doc.summary with
  | none => silent
  | some s =>
    if (summaryDeprecations s).length < 2 then silent
    else
      let offenders := misplaced s
      let place := lineList (offenders.map fun span => span.start.line)
      offenders.mapM fun span =>
        Code.gle01.report span
          (some (ascii "Remove duplicate deprecation warnings on " ++ place ++ ascii "."))

end Check

end DocLint
