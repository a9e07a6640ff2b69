import DocLint.Text.Bytes

/-!
# Glob patterns

A pattern is read into wildcards and literal bytes.  `*` stands for any text without a slash, `?`
for one byte other than a slash, `**` for any text at all, and `**/` for nothing or for any text
that ends in a slash.

* `mem_suffixes`: the suffixes of a text are the texts that end it.
-/

namespace DocLint

/-- A piece of a glob pattern. -/
inductive GlobPiece
  /-- One byte that stands for itself. -/
  | literal (c : UInt8)
  /-- One byte other than a slash. -/
  | one
  /-- Any text without a slash. -/
  | name
  /-- Any text. -/
  | path
  /-- Nothing, or any text that ends in a slash. -/
  | directories
deriving DecidableEq, Repr

namespace Glob

/-- The slash, which separates the components of a path. -/
def slash : UInt8 := 47

/-- The pieces of a pattern, read from left to right, the longest wildcard first. -/
def pieces : Bytes → List GlobPiece
  | [] => []
  | c :: r =>
    if c = byte '*' then
      match r with
      | [] => [.name]
      | d :: q =>
        if d = byte '*' then
          match q with
          | [] => [.path]
          | e :: rest => if e = slash then .directories :: pieces rest else .path :: pieces (e :: rest)
        else .name :: pieces (d :: q)
    else if c = byte '?' then .one :: pieces r
    else .literal c :: pieces r

/-- The ways to end a text: the text itself, then every shorter rest, the empty one last. -/
def suffixes : Bytes → List Bytes
  | [] => [[]]
  | c :: r => (c :: r) :: suffixes r

/-- The suffixes that are reached without passing a slash. -/
def nameSuffixes : Bytes → List Bytes
  | [] => [[]]
  | c :: r => (c :: r) :: if c = slash then [] else nameSuffixes r

/-- The suffixes that follow a slash. -/
def componentSuffixes : Bytes → List Bytes
  | [] => []
  | c :: r => if c = slash then r :: componentSuffixes r else componentSuffixes r

/-- The text is one that the pieces stand for. -/
def accepts : List GlobPiece → Bytes → Bool
  | [], text => text.isEmpty
  | .literal c :: rest, text =>
    match text with
    | [] => false
    | d :: r => c == d && accepts rest r
  | .one :: rest, text =>
    match text with
    | [] => false
    | d :: r => d != slash && accepts rest r
  | .name :: rest, text => (nameSuffixes text).any fun r => accepts rest r
  | .path :: rest, text => (suffixes text).any fun r => accepts rest r
  | .directories :: rest, text =>
    accepts rest text || (componentSuffixes text).any fun r => accepts rest r

/-- The text matches the pattern. -/
def isMatch (pattern text : Bytes) : Bool := accepts (pieces pattern) text

/-- The suffixes of a text are the texts that end it. -/
theorem mem_suffixes {t s : Bytes} : t ∈ suffixes s ↔ ∃ u, s = u ++ t := by
  induction s with
  | nil =>
    simp only [suffixes, List.mem_singleton]
    constructor
    · rintro rfl
      exact ⟨[], rfl⟩
    · rintro ⟨u, h⟩
      exact (List.append_eq_nil_iff.1 h.symm).2
  | cons c r ih =>
    simp only [suffixes, List.mem_cons, ih]
    constructor
    · rintro (rfl | ⟨u, rfl⟩)
      · exact ⟨[], rfl⟩
      · exact ⟨c :: u, rfl⟩
    · rintro ⟨u, h⟩
      cases u with
      | nil => exact .inl h.symm
      | cons d u =>
        simp only [List.cons_append, List.cons.injEq] at h
        exact .inr ⟨u, h.2⟩

end Glob

end DocLint
