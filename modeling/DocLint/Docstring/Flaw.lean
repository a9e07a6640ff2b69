import DocLint.Diagnostic.Code
import DocLint.Docstring.Line

/-!
# Flaws of a docstring

What the reading of a docstring finds wrong on its way.  None of it stops the reading.
-/

namespace DocLint

/-- A malformation of a docstring that does not keep it from being read. -/
inductive Flaw
  /-- No blank line stands above the section. -/
  | crowdedSection (header : Fragment)
  /-- The underline is not as long as the name of the section. -/
  | underlineLength (header underline : Fragment)
  /-- A comma or period behind the names of a See Also entry. -/
  | strayMark (position : Position) (mark : UInt8)
deriving DecidableEq, Repr

namespace Flaw

/-- The finding that reports the flaw. -/
def diagnostic : Flaw → Diagnostic
  | crowdedSection header =>
    Code.gle02.finding header.span (some (ascii "Insert a blank line before the section."))
      [(ascii "section", header.value)]
  | underlineLength header underline =>
    let wanted := List.replicate header.value.length (underline.value.headD 0)
    Code.gle03.finding underline.span (some (ascii "Underline should be `" ++ wanted ++ ascii "`."))
      [(ascii "section", header.value)]
  | strayMark position mark =>
    Code.sae01.finding (.ofLength position 1)
      (some (ascii "Remove the trailing `" ++ [mark] ++ ascii "`."))

end Flaw

end DocLint
