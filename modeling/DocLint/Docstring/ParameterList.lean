import DocLint.Docstring.TypeList

/-!
# Parameter lists

The body of a parameter-like section is a list of entries.  A header line is `name : type`, `name`
or `: type`; the lines below it that are blank or indented deeper are its description.

* `entries` reads every line: those before the first header are blank.
-/

namespace DocLint

open Bytes

/-- An entry of a parameter-like section. -/
structure ParameterEntry where
  /-- The header line without the indentation of the docstring. -/
  header : DocLine
  name : Option Fragment := none
  /-- The types, if any were written. -/
  types : Option (List Fragment) := none
  optionalCount : UInt32 := 0
  /-- The lines of the description as they stand, blank ones included. -/
  description : Paragraph := []
  span : Span := {}
deriving DecidableEq, Repr

namespace ParameterEntry

/-- Where findings about the entry as a whole are placed: at the name, else at the first type, else
at the header. -/
def anchor (entry : ParameterEntry) : Span :=
  match entry.name, entry.types with
  | some name, _ => name.span
  | none, some (type :: _) => type.span
  | none, _ => ⟨entry.header.position, entry.header.stop⟩

/-- What messages call the entry: its name, else its types. -/
def displayName (entry : ParameterEntry) : Bytes :=
  match entry.name with
  | some name => name.value
  | none => join (ascii ", ") ((entry.types.getD []).map Fragment.value)

/-- The name in a header: the text before the first colon, unless it is blank. -/
def headerName (header : DocLine) : Option Fragment :=
  let part := header.text.takeWhile (· ≠ byte ':')
  let value := strip part
  if value.isEmpty then none else some (header.fragment (leading part) value)

/-- The types in a header: what stands behind the first colon, unless it is blank. -/
def headerTypes (header : DocLine) : Option TypeList :=
  let before := header.text.takeWhile (· ≠ byte ':')
  let part := header.text.drop (before.length + 1)
  let value := strip part
  if value.isEmpty then none
  else some (.ofText value (header.column (before.length + 1 + leading part)) 0)

/-- The entry of a header line without its description.  With `bareTypes`, a header without a type
is itself one. -/
def ofHeader (header : DocLine) (bareTypes : Bool) : ParameterEntry :=
  let name := headerName header
  match headerTypes header, name with
  | some list, _ => { header, name, types := some list.types, optionalCount := list.optionalCount }
  | none, some value =>
    if bareTypes then { header, types := some [value] } else { header, name }
  | none, none => { header }

/-- The entry of a line and the description below it. -/
def ofLines (line : DocLine) (description : Paragraph) (indent : Nat) (bareTypes : Bool) :
    ParameterEntry :=
  let header := line.dedent indent
  let stop := match description.getLast? with
    | some last => last.stop
    | none => header.stop
  { ofHeader header bareTypes with description, span := ⟨header.position, stop⟩ }

/-- The line belongs to the description of a header with `indentation` leading whitespace. -/
def describes (indentation : Nat) (line : DocLine) : Bool :=
  line.isBlank || indentation < line.leading

/-- The entries of a section body. -/
def entries (indent : Nat) (bareTypes : Bool) : List DocLine → List ParameterEntry
  | [] => []
  | line :: rest =>
    if line.isBlank then entries indent bareTypes rest
    else
      ofLines line (rest.takeWhile (describes line.leading)) indent bareTypes ::
        entries indent bareTypes (rest.dropWhile (describes line.leading))
termination_by lines => lines.length
decreasing_by
  · simp
  · exact Nat.lt_succ_of_le (List.dropWhile_sublist _).length_le

end ParameterEntry

end DocLint
