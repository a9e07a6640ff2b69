import DocLint.Diagnostic.Basic
import DocLint.Diagnostic.Template

/-!
# The catalogue of codes

Every finding about a docstring carries one of the codes below.  A code has a name, a message
template and, in one case, ends the examination of its declaration.

* `ofName?_name`: a code is found under its name.
* `name_injective`: no two codes share a name.
-/

namespace DocLint

/-- The codes, in catalogue order. -/
inductive Code
  | gl08
  | gle02
  | gle03
  | sae01
  | gl01
  | gl02
  | gl03
  | gl05
  | gl06
  | gl07
  | gl09
  | gl10
  | gle01
  | ss01
  | ss02
  | ss03
  | ss04
  | ss05
  | ss06
  | es01
  | ex01
  | pr01
  | pr02
  | pr03
  | pr04
  | pr05
  | pr06
  | pr07
  | pr08
  | pr09
  | pr10
  | pre01
  | pre02
  | pre03
  | pre04
  | rt01
  | rt02
  | rt03
  | rt04
  | rt05
  | yd01
  | gle99
deriving DecidableEq, Repr

namespace Code

/-- Every code, in catalogue order. -/
def all : List Code :=
  [.gl08, .gle02, .gle03, .sae01, .gl01, .gl02, .gl03, .gl05, .gl06, .gl07, .gl09, .gl10, .gle01,
    .ss01, .ss02, .ss03, .ss04, .ss05, .ss06, .es01, .ex01, .pr01, .pr02, .pr03, .pr04, .pr05,
    .pr06, .pr07, .pr08, .pr09, .pr10, .pre01, .pre02, .pre03, .pre04, .rt01, .rt02, .rt03, .rt04,
    .rt05, .yd01, .gle99]

/-- The name that reports and options use. -/
def name : Code → Bytes
  | gl08 => ascii "GL08"
  | gle02 => ascii "GLE02"
  | gle03 => ascii "GLE03"
  | sae01 => ascii "SAE01"
  | gl01 => ascii "GL01"
  | gl02 => ascii "GL02"
  | gl03 => ascii "GL03"
  | gl05 => ascii "GL05"
  | gl06 => ascii "GL06"
  | gl07 => ascii "GL07"
  | gl09 => ascii "GL09"
  | gl10 => ascii "GL10"
  | gle01 => ascii "GLE01"
  | ss01 => ascii "SS01"
  | ss02 => ascii "SS02"
  | ss03 => ascii "SS03"
  | ss04 => ascii "SS04"
  | ss05 => ascii "SS05"
  | ss06 => ascii "SS06"
  | es01 => ascii "ES01"
  | ex01 => ascii "EX01"
  | pr01 => ascii "PR01"
  | pr02 => ascii "PR02"
  | pr03 => ascii "PR03"
  | pr04 => ascii "PR04"
  | pr05 => ascii "PR05"
  | pr06 => ascii "PR06"
  | pr07 => ascii "PR07"
  | pr08 => ascii "PR08"
  | pr09 => ascii "PR09"
  | pr10 => ascii "PR10"
  | pre01 => ascii "PRE01"
  | pre02 => ascii "PRE02"
  | pre03 => ascii "PRE03"
  | pre04 => ascii "PRE04"
  | rt01 => ascii "RT01"
  | rt02 => ascii "RT02"
  | rt03 => ascii "RT03"
  | rt04 => ascii "RT04"
  | rt05 => ascii "RT05"
  | yd01 => ascii "YD01"
  | gle99 => ascii "GLE99"

/-- What the message of a code says. -/
def template : Code → Template
  | gl08 => .withOne "Missing docstring in public " "type" "."
  | gle02 => .withOne "Missing blank line before section `" "section" "`."
  | gle03 => .withOne "Section `" "section" "` underline is too short or too long."
  | sae01 => .plain "Unexpected comma or period after function list in `See Also`."
  | gl01 => .plain "Docstring should start on a new line."
  | gl02 => .plain "Docstring should end one line before the closing quotes."
  | gl03 => .plain "Docstring should not contain double line breaks."
  | gl05 => .plain "Docstring line should not start with tabs."
  | gl06 => .withOne "Docstring contains unexpected section `" "section" "`."
  | gl07 => .withTwo "Section `" "actual" "` should be swapped with `" "expected" "`."
  | gl09 => .plain "Deprecation warning should precede extended summary."
  | gl10 => .withOne "reST directive `" "directive" "` must be followed by two colons."
  | gle01 => .plain "Summary should only contain a single deprecation warning."
  | ss01 => .plain "No summary found."
  | ss02 => .plain "Summary does not start with a capital letter."
  | ss03 => .plain "Summary does not end with a period."
  | ss04 => .plain "Summary contains heading whitespaces."
  | ss05 => .plain "Summary must start with infinitive verb, not third person."
  | ss06 => .plain "Summary should fit in a single line."
  | es01 => .plain "No extended summary found."
  | ex01 => .plain "No examples section found."
  | pr01 => .withOne "Parameter `" "parameter" "` should be documented."
  | pr02 => .withOne "Parameter `" "parameter" "` does not exist in the declaration."
  | pr03 => .withTwo "Parameter `" "documented" "` should be swapped with `" "declared" "`."
  | pr04 => .withOne "Parameter `" "parameter" "` should have a type."
  | pr05 => .withOne "Parameter `" "parameter" "` type should not finish with `.`."
  | pr06 =>
    Template.withTwo "Parameter `" "parameter" "` uses wrong type `" "wrong_type" "` instead of `" ++
      [.field (ascii "correct_type"), .text (ascii "`.")]
  | pr07 => .withOne "Parameter `" "parameter" "` has no description."
  | pr08 => .withOne "Parameter `" "parameter" "` description should start with uppercase letter."
  | pr09 => .withOne "Parameter `" "parameter" "` description should end with period."
  | pr10 => .withOne "Parameter `" "parameter" "` requires a space between name and type."
  | pre01 => .withOne "Parameter `" "parameter" "` description has empty prefix lines."
  | pre02 => .withOne "Parameter `" "parameter" "` description has empty suffix lines."
  | pre03 => .withOne "Parameter `" "parameter" "` specifies optional multiple times."
  | pre04 => .withOne "Parameter `" "parameter" "` uses empty choice."
  | rt01 => .plain "No return section found."
  | rt02 => .withOne "Single return `" "return" "` should only use the type."
  | rt03 => .withOne "Return `" "return" "` has no description."
  | rt04 => .withOne "Return `" "return" "` description should start with uppercase letter."
  | rt05 => .withOne "Return `" "return" "` description should end with period."
  | yd01 => .plain "No yields section found."
  | gle99 => .withTwo "Check `" "check" "` failed: " "reason" ""

/-- A finding with this code ends the examination of its declaration. -/
def terminates (c : Code) : Bool := c == .gl08

/-- The code of a name. -/
def ofName? (name : Bytes) : Option Code := all.find? fun c => c.name == name

/-- The finding with this code, the arguments put into its message. -/
def finding (c : Code) (span : Span) (suggestion : Option Bytes)
    (arguments : List (Bytes × Bytes) := []) : Diagnostic :=
  { severity := .warning, code := c.name, span, message := c.template.expand arguments, suggestion,
    terminates := c.terminates }

/-- The finding with this code, or the failure of its message for want of an argument. -/
def report (c : Code) (span : Span) (suggestion : Option Bytes)
    (arguments : List (Bytes × Bytes) := []) : Except Failure Diagnostic := do
  let _ ← c.template.fill arguments
  return c.finding span suggestion arguments

/-- A code is found under its name. -/
theorem ofName?_name (c : Code) : ofName? c.name = some c := by
  cases c <;> rfl

/-- No two codes share a name. -/
theorem name_injective {c d : Code} (h : c.name = d.name) : c = d := by
  have hd := ofName?_name d
  rw [← h, ofName?_name] at hd
  exact Option.some.inj hd

/-- The catalogue lists every code. -/
theorem mem_all (c : Code) : c ∈ all := by
  cases c <;> decide

end Code

end DocLint
