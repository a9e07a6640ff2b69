import DocLint.Docstring.Line

/-!
# Descriptions

What the rules ask of a description: whether there is one, whether it begins with a capital letter
and ends with a period, and how many empty lines surround it.  Text from the first version directive
on is not part of the description proper.
-/

namespace DocLint

open Bytes

/-- The beginnings of the directives that end a description. -/
def versionDirectives : List Bytes :=
  [ascii ".. versionadded", ascii ".. versionchanged", ascii ".. deprecated"]

/-- The line holds a version directive. -/
def DocLine.hasVersionDirective (line : DocLine) : Bool :=
  versionDirectives.any fun directive => includes line.text directive

namespace Paragraph

/-- The lines of the description proper: those in front of the first version directive that are not
blank. -/
def beforeDirective (p : Paragraph) : List DocLine :=
  (p.takeWhile fun line => !line.hasVersionDirective).filter fun line => !line.isBlank

/-- The number of blank lines at the beginning. -/
def blankAbove (p : Paragraph) : Nat := (p.takeWhile DocLine.isBlank).length

/-- The number of blank lines at the end. -/
def blankBelow (p : Paragraph) : Nat := (p.reverse.takeWhile DocLine.isBlank).length

/-- There is a description. -/
def hasDescription (p : Paragraph) : Bool := !p.beforeDirective.isEmpty

/-- The description does not begin with a lower-case letter. -/
def startsUppercase (p : Paragraph) : Bool :=
  match p.beforeDirective with
  | [] => true
  | first :: _ =>
    match stripStart first.text with
    | [] => true
    | c :: _ => !isAlpha c || isUpper c

/-- The description ends with a period, with an item of a list, or with a line indented deeper than
its first one. -/
def endsWithPeriod (p : Paragraph) : Bool :=
  match p.beforeDirective.head?, p.beforeDirective.getLast? with
  | some first, some last =>
    let content := strip last.text
    startsWith content (ascii "*") || startsWith content (ascii "- ") ||
      decide (first.leading < last.leading) || endsWith content (ascii ".")
  | _, _ => true

end Paragraph

end DocLint
