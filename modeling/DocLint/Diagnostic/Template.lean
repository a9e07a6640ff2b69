import DocLint.Text.Bytes

/-!
# Message templates

The message of a catalogue code is a template: fixed text with named fields.  A template is filled
from a list of named arguments; a field without an argument is a failure, an argument without a
field is ignored.

* `fill_eq_error`: a message that cannot be filled lacks an argument.
* `fill_eq_ok_iff`: filling succeeds exactly when every field has an argument.
-/

namespace DocLint

/-- Why a check could not be carried out. -/
inductive Failure
  /-- A message names a field for which no argument was given. -/
  | missingArgument (field : Bytes)
  /-- A text was asked for a byte that it does not have. -/
  | outOfRange
  /-- The check gave up for a reason of its own. -/
  | raised (reason : Bytes)
deriving DecidableEq, Repr

namespace Failure

/-- The reason in words; a text of the check's own ends at its first zero byte. -/
def reason : Failure → Bytes
  | missingArgument _ => ascii "argument not found"
  | outOfRange => ascii "position out of range"
  | raised text => text.takeWhile (· ≠ 0)

end Failure

/-- A piece of a message: text as it stands, or the place of a named argument. -/
inductive Piece
  | text (s : Bytes)
  | field (name : Bytes)
deriving DecidableEq, Repr

/-- A message with named fields. -/
abbrev Template := List Piece

namespace Template

/-- A message without fields. -/
def plain (s : String) : Template := [.text (ascii s)]

/-- A message with one field. -/
def withOne (before field after : String) : Template :=
  [.text (ascii before), .field (ascii field), .text (ascii after)]

/-- A message with two fields. -/
def withTwo (before first between second after : String) : Template :=
  withOne before first between ++ [.field (ascii second), .text (ascii after)]

/-- The template as it is written down, each field in braces. -/
def render (t : Template) : Bytes :=
  t.flatMap fun
    | .text s => s
    | .field name => [byte '\x7b'] ++ name ++ [byte '\x7d']

/-- The names of the fields, in order. -/
def fields (t : Template) : List Bytes :=
  t.filterMap fun
    | .text _ => none
    | .field name => some name

/-- The message with every field replaced by its argument; one without an argument is left out. -/
def expand (t : Template) (arguments : List (Bytes × Bytes)) : Bytes :=
  t.flatMap fun
    | .text s => s
    | .field name => (arguments.lookup name).getD []

/-- The message, provided that every field has an argument. -/
def fill (t : Template) (arguments : List (Bytes × Bytes)) : Except Failure Bytes :=
  match t.fields.find? fun name => (arguments.lookup name).isNone with
  | some name => .error (.missingArgument name)
  | none => .ok (t.expand arguments)

/-- A message that lacks an argument cannot be filled. -/
theorem fill_eq_error {t : Template} {arguments : List (Bytes × Bytes)}
    (h : ¬ ∀ name ∈ t.fields, (arguments.lookup name).isSome) :
    ∃ name ∈ t.fields, arguments.lookup name = none ∧
      t.fill arguments = .error (.missingArgument name) := by
  unfold fill
  split
  next name hfind =>
    have hnone := List.find?_some hfind
    exact ⟨name, List.mem_of_find?_eq_some hfind, Option.isNone_iff_eq_none.1 hnone, rfl⟩
  next hfind =>
    refine absurd (fun name hmem => ?_) h
    have hsome := List.find?_eq_none.1 hfind name hmem
    simpa [Option.isNone_iff_eq_none, Option.isSome_iff_ne_none] using hsome

/-- Filling succeeds exactly when every field has an argument. -/
theorem fill_eq_ok_iff (t : Template) (arguments : List (Bytes × Bytes)) :
    t.fill arguments = .ok (t.expand arguments) ↔
      ∀ name ∈ t.fields, (arguments.lookup name).isSome := by
  constructor
  · refine fun hfill => Decidable.byContradiction fun hmissing => ?_
    obtain ⟨name, hmem, hnone, herror⟩ := fill_eq_error hmissing
    rw [hfill] at herror
    cases herror
  · intro hall
    have hfind : (t.fields.find? fun name => (arguments.lookup name).isNone) = none :=
      List.find?_eq_none.2 fun name hmem => by
        rw [Option.isNone_iff_eq_none]
        exact Option.isSome_iff_ne_none.1 (hall name hmem)
    rw [fill, hfind]

end Template

end DocLint
