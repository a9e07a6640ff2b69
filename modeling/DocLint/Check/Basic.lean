import DocLint.Docstring.Basic
import DocLint.Docstring.Description
import DocLint.Source.Declaration

/-!
# Checks

A check looks at a declaration and its docstring and reports findings.  It may fail instead, for
want of an argument of a message or of a place in a text; how a failure is reported is not its
concern.

* `slice_of_le`: a piece that begins in a list, or at its end, can be read.
-/

namespace DocLint

/-- What a check comes to: its findings, or the failure that kept it from any. -/
abbrev CheckResult := Except Failure (List Diagnostic)

/-- A named rule about a declaration and its docstring. -/
structure Check where
  /-- The name of the rule, which is the code that it reports. -/
  id : Bytes
  run : Declaration → Docstring → CheckResult

namespace Check

/-- The rule that reports one code of the catalogue. -/
def ofCode (code : Code) (run : Declaration → Docstring → CheckResult) : Check := ⟨code.name, run⟩

/-- No findings. -/
def silent : CheckResult := .ok []

/-- One finding, at most. -/
def one (result : Except Failure Diagnostic) : CheckResult := result.map fun d => [d]

/-- A suggestion in fixed words. -/
def suggest (s : String) : Option Bytes := some (ascii s)

/-- The elements from an index on, `length` of them or as many as there are.  Nothing begins behind
the end. -/
def slice {α : Type} (xs : List α) (start length : Nat) : Except Failure (List α) :=
  if start ≤ xs.length then .ok ((xs.drop start).take length) else .error .outOfRange

/-- What is read at the elements of a list, where there is something. -/
def readEach {α β : Type} (read : α → Except Failure (Option β)) (xs : List α) :
    Except Failure (List β) :=
  (xs.mapM read).map fun found => found.filterMap fun value => value

/-- A piece that begins in a list, or at its end, can be read. -/
theorem slice_of_le {α : Type} {xs : List α} {start : Nat} (h : start ≤ xs.length) (length : Nat) :
    slice xs start length = .ok ((xs.drop start).take length) := if_pos h

/-- Reading that does not fail is looking up. -/
theorem readEach_eq_ok {α β : Type} {read : α → Except Failure (Option β)} {value : α → Option β}
    (h : ∀ x, read x = .ok (value x)) (xs : List α) :
    readEach read xs = .ok (xs.filterMap value) := by
  have hmap : xs.mapM read = .ok (xs.map value) := by
    induction xs with
    | nil => rfl
    | cons x xs ih =>
      rw [List.mapM_cons, h, ih]
      rfl
  rw [readEach, hmap, Except.map, List.filterMap_map]
  rfl

end Check

end DocLint
