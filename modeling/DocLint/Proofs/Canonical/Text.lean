import DocLint.Check.Registry
import DocLint.Proofs.Text.Edges
import DocLint.Proofs.Text.Lines
import DocLint.Source.Lexeme

/-!
# Canonical docstrings

A canonical docstring has a summary and an extended summary of one line each, and describes every
parameter, the result, what is yielded, and an example.  This module says how such a docstring is
written, and what its texts must be like.

* `CanonicalText.lines`: the lines of the docstring, from the opening quotes to the closing ones.
* `CanonicalText.Sound`: the conditions on the texts.
-/

namespace DocLint

open Bytes

/-! ### Texts -/

/-- A parameter with its type and its description. -/
structure ParameterText where
  declared : Parameter
  type : Bytes
  description : Bytes

/-- The texts of a canonical docstring. -/
structure CanonicalText where
  summary : Bytes
  extended : Bytes
  parameters : List ParameterText
  returnType : Bytes
  returnDescription : Bytes
  yieldType : Bytes
  yieldDescription : Bytes
  /-- What follows the prompt, the prompt included. -/
  session : Bytes

namespace CanonicalText

/-- A header and the description below it. -/
def entryLines (indent : Nat) (header description : Bytes) : List Bytes :=
  [spaces indent ++ header, spaces (indent + 4) ++ description]

/-- The header of a parameter. -/
def parameterHeader (p : ParameterText) : Bytes := p.declared.name ++ (ascii " : " ++ p.type)

/-- The lines about the parameters. -/
def parameterLines (t : CanonicalText) (indent : Nat) : List Bytes :=
  t.parameters.flatMap fun p => entryLines indent (parameterHeader p) p.description

/-- The sections with their names; there is none about parameters where there are none. -/
def sections (t : CanonicalText) (indent : Nat) : List (Bytes × List Bytes) :=
  (if t.parameters.isEmpty then [] else [(SectionName.parameters, t.parameterLines indent)]) ++
    [(SectionName.returns, entryLines indent t.returnType t.returnDescription),
      (SectionName.yields, entryLines indent t.yieldType t.yieldDescription),
      (SectionName.examples, [spaces indent ++ t.session])]

/-- A name with an underline of its length, and the body below it. -/
def sectionLines (indent : Nat) (s : Bytes × List Bytes) : List Bytes :=
  (spaces indent ++ s.1) :: (spaces indent ++ List.replicate s.1.length (byte '-')) :: s.2

/-- Blocks one below the other, with a line between them and another one behind the last. -/
def stack (gap closing : Bytes) : List (List Bytes) → List Bytes
  | [] => []
  | [block] => block ++ [closing]
  | block :: more :: rest => block ++ gap :: stack gap closing (more :: rest)

/-- The blocks between the blank lines. -/
def blocks (t : CanonicalText) (indent : Nat) : List (List Bytes) :=
  [spaces indent ++ t.summary] :: [spaces indent ++ t.extended] ::
    (t.sections indent).map (sectionLines indent)

/-- The lines of the docstring: nothing stands next to the opening quotes, blank lines are made of
`blank` spaces, and the closing quotes stand behind the indentation. -/
def lines (t : CanonicalText) (indent blank : Nat) : List Bytes :=
  [] :: stack (spaces blank) (spaces indent) (t.blocks indent)

/-- The docstring as it is written, in three quotes of either kind. -/
def literal (t : CanonicalText) (mark : Bytes) (quote : UInt8) (indent blank : Nat) : Bytes :=
  mark ++ ([quote, quote, quote] ++
    (join [newline] (t.lines indent blank) ++ [quote, quote, quote]))

end CanonicalText

/-! ### Conditions -/

/-- A line of prose: it is not empty, has no whitespace at its ends, and is no directive that would
be taken for a section or for a mistake. -/
structure IsProse (s : Bytes) : Prop where
  ne_nil : s ≠ []
  one_line : newline ∉ s
  strip_eq : strip s = s
  index_free : startsWith s indexDirective = false
  no_bareDirective : Check.bareDirective? s = none

/-- A sentence does not begin with a lower-case letter and ends with a period. -/
structure IsSentence (s : Bytes) : Prop extends IsProse s where
  capital : s.head?.any isLower = false
  period : s.getLast? = some (byte '.')

/-- A description is a sentence without version directives. -/
structure IsDescription (s : Bytes) : Prop extends IsSentence s where
  no_version : ∀ directive ∈ versionDirectives, includes s directive = false

instance (s : Bytes) : Decidable (IsProse s) :=
  decidable_of_iff (s ≠ [] ∧ newline ∉ s ∧ strip s = s ∧ startsWith s indexDirective = false ∧
      Check.bareDirective? s = none)
    ⟨fun ⟨hne, hline, hstrip, hindex, hdirective⟩ => ⟨hne, hline, hstrip, hindex, hdirective⟩,
      fun h => ⟨h.ne_nil, h.one_line, h.strip_eq, h.index_free, h.no_bareDirective⟩⟩

instance (s : Bytes) : Decidable (IsSentence s) :=
  decidable_of_iff (IsProse s ∧ s.head?.any isLower = false ∧ s.getLast? = some (byte '.'))
    ⟨fun ⟨hprose, hcapital, hperiod⟩ => ⟨hprose, hcapital, hperiod⟩,
      fun h => ⟨h.toIsProse, h.capital, h.period⟩⟩

instance (s : Bytes) : Decidable (IsDescription s) :=
  decidable_of_iff (IsSentence s ∧ ∀ directive ∈ versionDirectives, includes s directive = false)
    ⟨fun ⟨hsentence, hversion⟩ => ⟨hsentence, hversion⟩, fun h => ⟨h.toIsSentence, h.no_version⟩⟩

/-- A name is made of letters, digits and underscores, or of bytes beyond these. -/
def IsName (s : Bytes) : Prop := s ≠ [] ∧ ∀ c ∈ s, isNameByte c = true

/-- A word is made of letters, digits and underscores. -/
def IsWordRun (s : Bytes) : Prop := s ≠ [] ∧ ∀ c ∈ s, isWord c = true

instance (s : Bytes) : Decidable (IsName s) := inferInstanceAs (Decidable (_ ∧ _))

instance (s : Bytes) : Decidable (IsWordRun s) := inferInstanceAs (Decidable (_ ∧ _))

/-- The types that a text lists. -/
def listedTypes (s : Bytes) : List Bytes := (TypeList.ofText s {} 0).types.map Fragment.value

/-- A type declaration whose colons stand between spaces, and which lists no type by a wrong name and
no empty choice, does not end with a period and says `optional` once at most. -/
structure IsPlainType (s : Bytes) : Prop where
  ne_nil : s ≠ []
  one_line : newline ∉ s
  strip_eq : strip s = s
  no_tightColon : Check.tightColons s = []
  no_period : ∀ type ∈ (listedTypes s).getLast?, endsWith type (ascii ".") = false
  no_wrongName : ∀ type ∈ listedTypes s, Check.typeCorrections.lookup type = none
  no_emptyChoice : ∀ type ∈ listedTypes s, Check.isEmptyChoice type = false
  optional_le : (TypeList.ofText s {} 0).optionalCount ≤ 1

/-- The texts are as a canonical docstring has them. -/
structure CanonicalText.Sound (t : CanonicalText) : Prop where
  summary : IsSentence t.summary
  summary_verb : endsWith (t.summary.takeWhile fun c => !isSpace c) (ascii "s") = false
  summary_current : includes t.summary Check.deprecationMarker = false
  extended : IsProse t.extended
  parameter_name : ∀ p ∈ t.parameters, IsName p.declared.name
  parameter_type : ∀ p ∈ t.parameters, IsPlainType p.type
  parameter_description : ∀ p ∈ t.parameters, IsDescription p.description
  returnType : IsWordRun t.returnType
  returnDescription : IsDescription t.returnDescription
  yieldType : IsWordRun t.yieldType
  yieldDescription : IsDescription t.yieldDescription
  session : startsWith t.session (ascii ">>>") = true
  session_line : newline ∉ t.session

end DocLint
