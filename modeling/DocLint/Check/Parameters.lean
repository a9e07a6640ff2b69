import DocLint.Check.Entry

/-!
# Checks of the parameters

The rules about the sections that document parameters: which parameters they name, in which order,
with which types and with which descriptions.

* `mem_tightColons_lt`: a tight colon takes at least one byte.
-/

namespace DocLint

namespace Check

open Bytes

/-- A documented name and the name of the entry that it is part of. -/
structure DocumentedName where
  name : Bytes
  entry : Fragment
deriving DecidableEq, Repr

/-- The name without asterisks in front. -/
def dropStars (name : Bytes) : Bytes := name.dropWhile (· = byte '*')

/-- The names that an entry documents: those between the commas, without asterisks. -/
def namesOf (value : Bytes) : List Bytes :=
  (((splitOn (byte ',') value).map strip).filter fun part => !part.isEmpty).map dropStars

/-- The names that some entries document. -/
def documentedNames (entries : List ParameterEntry) : List DocumentedName :=
  entries.flatMap fun entry =>
    match entry.name with
    | none => []
    | some name => (namesOf name.value).map fun part => ⟨part, name⟩

/-- The entries of the parameter section. -/
def parameterEntries (doc : Docstring) : List ParameterEntry := doc.entries SectionName.parameters

/-- The entries of the section for other parameters. -/
def otherEntries (doc : Docstring) : List ParameterEntry :=
  doc.entries SectionName.otherParameters

/-- Applies a rule to the declarations that take parameters. -/
def ofParameters (d : Declaration) (result : CheckResult) : CheckResult :=
  if d.form.takesParameters then result else silent

/-- The argument of a message about a parameter. -/
def parameterArgument (name : Bytes) : List (Bytes × Bytes) := [(ascii "parameter", name)]

/-! ### Names -/

/-- PR01: every declared parameter is documented. -/
def undocumentedParameters (d : Declaration) (doc : Docstring) : CheckResult :=
  ofParameters d <|
    let documented :=
      documentedNames (parameterEntries doc) ++ documentedNames (otherEntries doc)
    (d.parameters.filter fun p => !documented.any fun n => n.name == p.name).mapM fun p =>
      Code.pr01.report p.span (some (ascii "Add documentation for `" ++ p.name ++ ascii "`."))
        (parameterArgument p.name)

/-- PR02: every documented parameter is declared. -/
def undeclaredParameters (d : Declaration) (doc : Docstring) : CheckResult :=
  ofParameters d <|
    let documented :=
      documentedNames (parameterEntries doc) ++ documentedNames (otherEntries doc)
    (documented.filter fun n => (d.parameter? n.name).isNone).mapM fun n =>
      Code.pr02.report n.entry.span (some (ascii "Remove or declare `" ++ n.name ++ ascii "`."))
        (parameterArgument n.name)

/-- The places where documented names differ from as many declared ones. -/
def disorder (documented : List DocumentedName) (declared : List Parameter) :
    List (DocumentedName × Parameter) :=
  if documented.length = declared.length then
    (documented.zip declared).filter fun (n, p) => n.name != p.name
  else []

/-- The places where the documented parameters are out of order.  The declared parameters from the
first one in the section for other parameters on are compared with that section. -/
def disorders (d : Declaration) (doc : Docstring) : List (DocumentedName × Parameter) :=
  let documented := documentedNames (parameterEntries doc)
  let other := documentedNames (otherEntries doc)
  match other with
  | [] => disorder documented d.parameters
  | first :: _ =>
    let index := (d.parameters.takeWhile fun p => p.name != first.name).length
    disorder documented (d.parameters.take index) ++ disorder other (d.parameters.drop index)

/-- Reads the places where the documented parameters are out of order, after the declared ones have
been parted. -/
def readDisorders (d : Declaration) (doc : Docstring) :
    Except Failure (List (DocumentedName × Parameter)) := do
  let documented := documentedNames (parameterEntries doc)
  let other := documentedNames (otherEntries doc)
  match other with
  | [] => return disorder documented d.parameters
  | first :: _ =>
    let index := (d.parameters.takeWhile fun p => p.name != first.name).length
    let front ← slice d.parameters 0 index
    let back ← slice d.parameters index d.parameters.length
    return disorder documented front ++ disorder other back

/-- PR03: the parameters are documented in the order of their declaration. -/
def parameterOrder (d : Declaration) (doc : Docstring) : CheckResult :=
  ofParameters d do
    let found ← readDisorders d doc
    found.mapM fun (n, p) =>
      Code.pr03.report n.entry.span
        (some (ascii "The parameter should be `" ++ p.name ++ ascii "`."))
        [(ascii "documented", n.name), (ascii "declared", p.name)]

/-! ### Types -/

/-- The suggestion for a parameter without a type: the declared type, if there is one. -/
def typeSuggestion (declared : Option Parameter) : Bytes :=
  match declared.bind Parameter.declaredType with
  | some type => ascii "Add the type declaration `" ++ type ++ ascii "`."
  | none => ascii "Add a type declaration."

/-- PR04: every documented parameter has a type. -/
def typeMissing (d : Declaration) (doc : Docstring) : CheckResult :=
  ofParameters d <|
    let untyped := (parameterEntries doc ++ otherEntries doc).filterMap fun entry =>
      if entry.types.isSome then none else entry.name
    untyped.mapM fun name =>
      Code.pr04.report name.span (some (typeSuggestion (d.parameter? (dropStars name.value))))
        (parameterArgument name.value)

/-- PR05: no list of types ends with a period. -/
def typePeriod (d : Declaration) (doc : Docstring) : CheckResult :=
  ofParameters d <|
    let ended := (parameterEntries doc ++ otherEntries doc).filterMap fun entry =>
      ((entry.types.getD []).getLast?).bind fun type =>
        if endsWith type.value (ascii ".") then some (entry, type) else none
    ended.mapM fun (entry, type) =>
      Code.pr05.report (.point type.span.stop) (suggest "Remove `.`.")
        (parameterArgument entry.displayName)

/-- The names of types that should not be used, and those to use instead. -/
def typeCorrections : List (Bytes × Bytes) :=
  [(ascii "integer", ascii "int"), (ascii "boolean", ascii "bool"), (ascii "string", ascii "str")]

/-- PR06: no type goes by another name than its own. -/
def typeNames (d : Declaration) (doc : Docstring) : CheckResult :=
  ofParameters d <|
    let wrong := (parameterEntries doc).flatMap fun entry =>
      (entry.types.getD []).filterMap fun type =>
        (typeCorrections.lookup type.value).map fun correct => (entry, type, correct)
    wrong.mapM fun (entry, type, correct) =>
      Code.pr06.report type.span
        (some (ascii "Use `" ++ correct ++ ascii "` instead of `" ++ type.value ++ ascii "`."))
        [(ascii "parameter", entry.displayName), (ascii "wrong_type", type.value),
          (ascii "correct_type", correct)]

/-! ### Descriptions -/

/-- PR07: every parameter has a description. -/
def parameterDescribed (d : Declaration) (doc : Docstring) : CheckResult :=
  ofParameters d (described .pr07 "parameter" (parameterEntries doc))

/-- PR08: the description of a parameter begins with a capital letter. -/
def parameterCapitalized (d : Declaration) (doc : Docstring) : CheckResult :=
  ofParameters d (capitalized .pr08 "parameter" (parameterEntries doc))

/-- PR09: the description of a parameter ends with a period. -/
def parameterPunctuated (d : Declaration) (doc : Docstring) : CheckResult :=
  ofParameters d (punctuated .pr09 "parameter" (parameterEntries doc))

/-- The number of bytes around a colon without whitespace on some side, if the text begins with
such a place: a colon right behind a byte or right in front of one, a colon with only whitespace
behind it, or, at the beginning of the header, one with only whitespace in front. -/
def tightLength (atStart : Bool) (s : Bytes) : Nat :=
  match s with
  | [] => 0
  | c :: r =>
    -- The colon stands right behind this byte.
    if !isSpace c && r.head? == some (byte ':') then 2
    -- The colon stands right in front of the next byte.
    else if c == byte ':' && r.head?.any (fun d => !isSpace d) then 2
    -- Nothing but whitespace stands behind the colon, or in front of it.
    else if c == byte ':' && isBlank r then (c :: r).length
    else if atStart && startsWith (stripStart (c :: r)) (ascii ":") then leading (c :: r) + 1
    else 0

/-- The tight colons of a text, each with the offsets at which its bytes begin and end; the first
`skip` bytes belong to the place before. -/
def tightColonsFrom : Nat → Nat → Bytes → List (Nat × Nat)
  | _, _, [] => []
  | skip + 1, offset, _ :: r => tightColonsFrom skip (offset + 1) r
  | 0, offset, c :: r =>
    match tightLength (offset == 0) (c :: r) with
    | 0 => tightColonsFrom 0 (offset + 1) r
    | n + 1 => (offset, offset + n + 1) :: tightColonsFrom n (offset + 1) r

/-- The tight colons of a header. -/
def tightColons (s : Bytes) : List (Nat × Nat) := tightColonsFrom 0 0 s

/-- PR10: the colon between a name and its types stands between spaces. -/
def colonSpacing (d : Declaration) (doc : Docstring) : CheckResult :=
  ofParameters d <|
    let tight := (parameterEntries doc).flatMap fun entry =>
      (tightColons entry.header.text).map fun place => (entry, place)
    tight.mapM fun (entry, start, stop) =>
      Code.pr10.report ⟨entry.header.column start, entry.header.column stop⟩
        (suggest "Insert a space before and/or after `:`.") (parameterArgument entry.displayName)

/-- PRE01: no blank line stands above a description. -/
def blankAboveDescription (d : Declaration) (doc : Docstring) : CheckResult :=
  ofParameters d <|
    let late := (parameterEntries doc).filter fun entry =>
      !entry.description.all DocLine.isBlank && decide (0 < entry.description.blankAbove)
    late.mapM fun entry =>
      Code.pre01.report entry.anchor (suggest "Remove empty lines.") (subject "parameter" entry)

/-- PRE02: no blank line stands below a description other than the last. -/
def blankBelowDescription (d : Declaration) (doc : Docstring) : CheckResult :=
  ofParameters d <|
    let long := (parameterEntries doc).dropLast.filter fun entry =>
      !entry.description.all DocLine.isBlank && decide (0 < entry.description.blankBelow)
    long.mapM fun entry =>
      Code.pre02.report entry.anchor (suggest "Remove empty lines.") (subject "parameter" entry)

/-- PRE03: `optional` is said once. -/
def repeatedOptional (d : Declaration) (doc : Docstring) : CheckResult :=
  ofParameters d <|
    ((parameterEntries doc).filter fun entry => decide (1 < entry.optionalCount)).mapM fun entry =>
      Code.pre03.report entry.anchor (suggest "Remove duplicate `optional`.")
        (subject "parameter" entry)

/-- The type is a choice set without choices. -/
def isEmptyChoice (type : Bytes) : Bool :=
  startsWith type [byte '\x7b'] && endsWith type [byte '\x7d'] && isBlank (type.drop 1).dropLast

/-- Reads what stands between the braces of a choice set: the type is one without choices. -/
def readEmptyChoice (type : Bytes) : Except Failure Bool :=
  if startsWith type [byte '\x7b'] && endsWith type [byte '\x7d'] then
    (slice type 1 (type.length - 2)).map isBlank
  else .ok false

/-- PRE04: every choice set has choices. -/
def emptyChoices (d : Declaration) (doc : Docstring) : CheckResult :=
  ofParameters d do
    let types := (parameterEntries doc).flatMap fun entry =>
      (entry.types.getD []).map fun type => (entry, type)
    let empty ← readEach (fun (entry, type) =>
      (readEmptyChoice type.value).map fun isEmpty => if isEmpty then some (entry, type) else none)
      types
    empty.mapM fun (entry, type) =>
      Code.pre04.report type.span (suggest "Insert choices.") (subject "parameter" entry)

/-- A tight colon takes at least one byte. -/
theorem mem_tightColons_lt {s : Bytes} {place : Nat × Nat} (h : place ∈ tightColons s) :
    place.1 < place.2 := by
  have hfrom : ∀ skip offset (t : Bytes), ∀ p ∈ tightColonsFrom skip offset t, p.1 < p.2 := by
    intro skip offset t
    fun_induction tightColonsFrom skip offset t with
    | case1 => simp
    | case2 _ _ _ _ ih => exact ih
    | case3 _ _ _ _ ih => exact ih
    | case4 offset c r n _ ih =>
      intro p hp
      rcases List.mem_cons.1 hp with rfl | hp
      · exact Nat.lt_succ_of_le (Nat.le_add_right offset n)
      · exact ih p hp
  exact hfrom 0 0 s place h

end Check

end DocLint
