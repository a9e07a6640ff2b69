import DocLint.Docstring.ParameterList
import DocLint.Docstring.Reader
import DocLint.Docstring.SeeAlso

/-!
# Sections

A section has a name with an underline below it, and a body that is read according to the name.
-/

namespace DocLint

open Bytes

namespace SectionName

/-! The names as they are written above their underlines. -/

def parameters : Bytes := ascii "Parameters"
def otherParameters : Bytes := ascii "Other Parameters"
def attributes : Bytes := ascii "Attributes"
def methods : Bytes := ascii "Methods"
def returns : Bytes := ascii "Returns"
def yields : Bytes := ascii "Yields"
def receives : Bytes := ascii "Receives"
def raises : Bytes := ascii "Raises"
def warns : Bytes := ascii "Warns"
def warnings : Bytes := ascii "Warnings"
def seeAlso : Bytes := ascii "See Also"
def notes : Bytes := ascii "Notes"
def references : Bytes := ascii "References"
def examples : Bytes := ascii "Examples"

/-- The names that a docstring may use, in the order in which it should use them. -/
def allowed : List Bytes :=
  [parameters, attributes, methods, returns, yields, receives, otherParameters, raises, warns,
    warnings, seeAlso, notes, references, examples]

/-- The sections that list named entries. -/
def named : List Bytes := [parameters, otherParameters, attributes, methods]

/-- The sections that list types, with or without a name. -/
def typed : List Bytes := [returns, yields, receives, raises, warns]

end SectionName

/-- The body of a section. -/
inductive SectionContents
  | parameters (entries : List ParameterEntry)
  | seeAlso (entries : List SeeAlsoEntry)
  | text (lines : List DocLine)
deriving DecidableEq, Repr

namespace SectionContents

/-- The body as a section of that name has it. -/
def ofBody (name : Bytes) (indent : Nat) (body : List DocLine) : SectionContents :=
  if name ∈ SectionName.named then .parameters (ParameterEntry.entries indent false body)
  else if name ∈ SectionName.typed then .parameters (ParameterEntry.entries indent true body)
  else if name = SectionName.seeAlso then .seeAlso (SeeAlsoEntry.entries indent body)
  else .text (Paragraph.trim body)

/-- The flaws in the body. -/
def flaws (name : Bytes) (indent : Nat) (body : List DocLine) : List Flaw :=
  if name = SectionName.seeAlso then SeeAlsoEntry.flaws indent body else []

end SectionContents

/-- A section of a docstring. -/
structure DocSection where
  name : Fragment
  /-- The underline is as long as the name. -/
  validUnderline : Bool
  contents : SectionContents
  /-- From the beginning of the header line to the end of the last line. -/
  span : Span
deriving DecidableEq, Repr

namespace DocSection

/-- The entries of a parameter-like section, none for any other. -/
def parameters (s : DocSection) : List ParameterEntry :=
  match s.contents with
  | .parameters entries => entries
  | _ => []

/-- The section that some lines make up, with its flaws, given the line above them.  Lines that
begin with an index directive, or have no underline, are none. -/
def ofLines (above : Option DocLine) (indent : Nat) (lines : List DocLine) :
    Option (DocSection × List Flaw) :=
  match lines with
  | header :: line :: body =>
    let name := header.stripped
    let underline := line.stripped
    if startsWith name.value indexDirective || !isUnderline underline.value then none
    else
      let validUnderline := underline.value.length == name.value.length
      let crowded := if above.any fun l => !l.isBlank then [.crowdedSection name] else []
      let short := if validUnderline then [] else [.underlineLength name underline]
      some ({ name, validUnderline, contents := .ofBody name.value indent body,
              span := Paragraph.span lines },
        crowded ++ short ++ SectionContents.flaws name.value indent body)
  | _ => none

end DocSection

end DocLint
