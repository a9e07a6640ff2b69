import DocLint.Docstring.Flaw

/-!
# See Also sections

An entry begins with a line of references, separated by commas, and may go on with ` : ` and a
description.  A reference is a bare name or a name in backticks, the latter with an optional role in
front.  Indented lines below an entry that are no entries themselves continue its description.

* `Reference.length_pos`: a reference has at least one byte.
-/

namespace DocLint

open Bytes

/-- A name of a See Also entry, with its role. -/
structure SeeAlsoName where
  name : Fragment
  role : Option Bytes
deriving DecidableEq, Repr

/-- An entry of a See Also section. -/
structure SeeAlsoEntry where
  names : List SeeAlsoName
  description : Option Paragraph
  span : Span
deriving DecidableEq, Repr

/-- The byte that delimits a quoted name. -/
def backtick : UInt8 := 96

/-- A byte of a reference's name. -/
def isReferenceByte (c : UInt8) : Bool := isWord c || c == byte '.' || c == byte '-'

/-- A reference at the beginning of a text. -/
structure Reference where
  value : Bytes
  role : Option Bytes := none
  /-- The number of bytes in front of the name. -/
  lead : Nat := 0
  /-- The number of bytes of the whole reference. -/
  length : Nat
  /-- The name stands without backticks. -/
  plain : Bool := false
deriving DecidableEq, Repr

namespace Reference

/-- The length of a shortened module name, `~module.`, in front of a quoted name. -/
def shortenedLength (s : Bytes) : Nat :=
  match s with
  | [] => 0
  | c :: r =>
    let word := r.takeWhile isWord
    if c = byte '~' ∧ word ≠ [] ∧ (r.drop word.length).head? = some (byte '.') then
      word.length + 2
    else 0

/-- The name in backticks that the text begins with. -/
def quoted? (s : Bytes) : Option Reference :=
  match s with
  | [] => none
  | c :: r =>
    let lead := shortenedLength r
    let name := (r.drop lead).takeWhile isReferenceByte
    let length := lead + name.length
    if c = backtick ∧ name ≠ [] ∧ (r.drop length).head? = some backtick then
      some { value := r.take length, lead := 1, length := length + 2 }
    else none

/-- The role in front of a quoted name: a word, with the domain `py:` in front if it is given. -/
def rolePart (s : Bytes) : Bytes :=
  let domain := if startsWith s (ascii "py:") then 3 else 0
  s.take (domain + ((s.drop domain).takeWhile isWord).length)

/-- The role has a word. -/
def hasRole (s : Bytes) : Bool :=
  let domain := if startsWith s (ascii "py:") then 3 else 0
  (s.drop domain).head?.any isWord

/-- The reference that the text begins with. -/
def ofText? (s : Bytes) : Option Reference :=
  match s with
  | [] => none
  | c :: r =>
    if c = byte ':' then
      let role := rolePart r
      if hasRole r && (r.drop role.length).head? == some (byte ':') then
        (quoted? (r.drop (role.length + 1))).map fun reference =>
          { reference with
            role := some role
            lead := role.length + 2 + reference.lead
            length := role.length + 2 + reference.length }
      else none
    else if c = backtick then quoted? s
    else
      let name := s.takeWhile isReferenceByte
      if name = [] then none else some { value := name, length := name.length, plain := true }

/-- A quoted name has its backticks. -/
theorem quoted?_length_pos {s : Bytes} {reference : Reference} (h : quoted? s = some reference) :
    0 < reference.length := by
  unfold quoted? at h
  split at h
  · cases h
  · dsimp only at h
    split at h
    · cases h
      simp
    · cases h

/-- A reference has at least one byte. -/
theorem length_pos {s : Bytes} {reference : Reference} (h : ofText? s = some reference) :
    0 < reference.length := by
  unfold ofText? at h
  split at h
  · cases h
  · split at h
    · dsimp only at h
      split at h
      · simp only [Option.map_eq_some_iff] at h
        obtain ⟨inner, _, rfl⟩ := h
        simp only
        omega
      · cases h
    · split at h
      · exact quoted?_length_pos h
      · dsimp only at h
        split at h
        · cases h
        next hname =>
          cases h
          exact List.length_pos_iff.2 hname

end Reference

/-- References with the offsets at which they begin, and the text behind the last one. -/
structure References where
  found : List (Nat × Reference)
  offset : Nat
  rest : Bytes
deriving DecidableEq, Repr

namespace References

/-- The references that follow the first one, each behind a comma and whitespace. -/
def more (offset : Nat) (s : Bytes) : References :=
  match s with
  | [] => ⟨[], offset, []⟩
  | c :: r =>
    if c = byte ',' ∧ 0 < leading r then
      match Reference.ofText? (stripStart r) with
      | none => ⟨[], offset, c :: r⟩
      | some reference =>
        let first := offset + 1 + leading r
        let behind := more (first + reference.length) ((stripStart r).drop reference.length)
        { behind with found := (first, reference) :: behind.found }
    else ⟨[], offset, c :: r⟩
termination_by s.length
decreasing_by
  have h : (stripStart r).length ≤ r.length := (List.dropWhile_sublist _).length_le
  simp only [List.length_drop, List.length_cons]
  omega

/-- The references of a line. -/
def ofLine? (s : Bytes) : Option References :=
  (Reference.ofText? (stripStart s)).map fun reference =>
    let first := leading s
    let behind := more (first + reference.length) ((stripStart s).drop reference.length)
    { behind with found := (first, reference) :: behind.found }

/-- The last reference with the period at its end left out, where it is a bare name with more than
that. -/
def dropPeriod (found : List (Nat × Reference)) : Option (List (Nat × Reference) × Nat) :=
  match found.getLast? with
  | none => none
  | some (first, reference) =>
    if reference.plain ∧ 1 < reference.value.length ∧
        reference.value.getLast? = some (byte '.') then
      some (found.dropLast ++ [(first, { reference with value := reference.value.dropLast })],
        first + reference.value.length - 1)
    else none

end References

/-- A line of references taken apart. -/
structure SeeAlsoLine where
  references : List (Nat × Reference)
  /-- The offset of a comma or period behind the references. -/
  stray : Option Nat
  /-- The offset of the description. -/
  description : Option Nat
deriving DecidableEq, Repr

namespace SeeAlsoLine

/-- What stands behind the references: nothing (`none`), or a description at some offset; any other
text is refused. -/
def tail? (offset : Nat) (s : Bytes) : Option (Option Nat) :=
  match stripStart s with
  | [] => some none
  | c :: r =>
    if c = byte ':' then
      -- A colon with nothing behind it announces no description.
      if leading r = r.length then some none
      else if 0 < leading r then some (some (offset + leading s + 1 + leading r))
      else none
    else none

/-- A line without the indentation of its docstring. -/
def ofText? (s : Bytes) : Option SeeAlsoLine := do
  let line ← References.ofLine? s
  match line.rest with
  | [] => finish line.found line.offset []
  | c :: r =>
    -- A bare name takes the periods behind it, so that this one follows a quoted name.
    if c = byte ',' ∨ c = byte '.' then
      return ⟨line.found, some line.offset, ← tail? (line.offset + 1) r⟩
    else finish line.found line.offset (c :: r)
where
  /-- A line without a mark of its own behind the references. -/
  finish (found : List (Nat × Reference)) (offset : Nat) (rest : Bytes) : Option SeeAlsoLine := do
    let description ← tail? offset rest
    match References.dropPeriod found with
    | some (shortened, stray) => return ⟨shortened, some stray, description⟩
    | none => return ⟨found, none, description⟩

end SeeAlsoLine

/-- What a line of a See Also section is. -/
inductive SeeAlsoRole
  /-- Nothing that counts. -/
  | ignored
  /-- More of the description above. -/
  | continuation (line : DocLine)
  /-- The first line of an entry. -/
  | entry (entry : SeeAlsoEntry) (flaws : List Flaw)
deriving DecidableEq, Repr

namespace SeeAlsoRole

/-- The continuation, if the line is one. -/
def continuation? : SeeAlsoRole → Option DocLine
  | continuation line => some line
  | _ => none

/-- The line begins an entry. -/
def isEntry : SeeAlsoRole → Bool
  | entry _ _ => true
  | _ => false

/-- The flaws found on the line. -/
def flaws : SeeAlsoRole → List Flaw
  | entry _ flaws => flaws
  | _ => []

/-- The entry that a line of references begins. -/
def ofReferences (line : DocLine) (indent : Nat) (found : SeeAlsoLine) : SeeAlsoRole :=
  let first := min indent line.leading
  let text := line.text.drop first
  let names := found.references.map fun (offset, reference) =>
    ⟨line.fragment (first + offset + reference.lead) reference.value, reference.role⟩
  let description := found.description.map fun offset =>
    [DocLine.mk (line.column (first + offset)) (stripEnd (text.drop offset))]
  let flaws := match found.stray, found.description with
    | some offset, none => [.strayMark (line.column (first + offset)) ((text.drop offset).headD 0)]
    | _, _ => []
  .entry ⟨names, description, line.column line.leading,
    line.column (first + (stripEnd text).length)⟩ flaws

/-- The role of a line: indented lines without a description of their own continue an entry, all
other lines of references begin one. -/
def ofLine (indent : Nat) (line : DocLine) : SeeAlsoRole :=
  let text := line.text.drop (min indent line.leading)
  let found := SeeAlsoLine.ofText? text
  let described := found.any fun l => l.description.isSome
  if line.isBlank then .ignored
  else if !described && text.head?.any isSpace then
    .continuation ⟨line.column line.leading, strip line.text⟩
  else match found with
    | none => .ignored
    | some l => ofReferences line indent l

end SeeAlsoRole

namespace SeeAlsoEntry

/-- The entry with more lines of description. -/
def extend (entry : SeeAlsoEntry) (lines : List DocLine) : SeeAlsoEntry :=
  match lines.getLast? with
  | none => entry
  | some last =>
    { entry with
      description := some (entry.description.getD [] ++ lines)
      span := ⟨entry.span.start, last.stop⟩ }

/-- The entries of lines whose roles are known; a continuation without an entry above it is lost. -/
def ofRoles : List SeeAlsoRole → List SeeAlsoEntry
  | [] => []
  | .entry entry _ :: rest =>
    entry.extend ((rest.takeWhile fun role => !role.isEntry).filterMap
      SeeAlsoRole.continuation?) :: ofRoles rest
  | _ :: rest => ofRoles rest

/-- The entries of a section body. -/
def entries (indent : Nat) (body : List DocLine) : List SeeAlsoEntry :=
  ofRoles (body.map (SeeAlsoRole.ofLine indent))

/-- The flaws of a section body, in order. -/
def flaws (indent : Nat) (body : List DocLine) : List Flaw :=
  body.flatMap fun line => (SeeAlsoRole.ofLine indent line).flaws

end SeeAlsoEntry

end DocLint
