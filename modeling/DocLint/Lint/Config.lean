import DocLint.Check.Registry
import DocLint.Text.Glob

/-!
# Configuration

Which codes are reported, which paths are left out, and which declarations are examined.

* `isExcluded_nil`: without patterns no path is excluded.
-/

namespace DocLint

open Bytes

/-- The form of the report. -/
inductive OutputFormat
  /-- One line for each finding. -/
  | simple
  /-- The source along with each finding. -/
  | full
deriving DecidableEq, Repr

/-- What a run is asked to do. -/
structure Config where
  /-- The beginnings of the codes to report, all codes if there are none. -/
  select : List Bytes := []
  /-- The beginnings of the codes not to report. -/
  ignore : List Bytes := []
  /-- The patterns of the paths to leave out. -/
  exclude : List Bytes := []
  /-- Private declarations are examined too. -/
  includePrivate : Bool := false
  /-- Declarations whose names have a meaning of their own are left out. -/
  excludeMagic : Bool := false
  format : OutputFormat := .simple
deriving DecidableEq, Repr

namespace Config

/-- The code begins like one of `starts`. -/
def beginsLike (starts : List Bytes) (code : Bytes) : Bool := starts.any fun s => startsWith code s

/-- The code is selected and not ignored. -/
def isEnabled (c : Config) (code : Bytes) : Bool :=
  (c.select.isEmpty || beginsLike c.select code) && !beginsLike c.ignore code

/-- The path without `./` in front, however often it stands there. -/
def dropCurrent : Bytes → Bytes
  | c :: d :: rest =>
    if c = byte '.' ∧ d = Glob.slash then dropCurrent rest else c :: d :: rest
  | s => s

/-- The path with slashes for backslashes and without `./` in front. -/
def normalizePath (path : Bytes) : Bytes :=
  dropCurrent (path.map fun c => if c = backslash then Glob.slash else c)

/-- The path and what follows each of its slashes. -/
def tails (path : Bytes) : List Bytes := path :: Glob.componentSuffixes path

/-- What stands in front of each slash of a path, the shortest first. -/
def heads : Bytes → List Bytes
  | [] => []
  | c :: r =>
    let longer := (heads r).map (c :: ·)
    if c = Glob.slash then [] :: longer else longer

/-- A pattern matches some part of the path that begins at its beginning or behind a slash, and ends
at its end or in front of a slash. -/
def isExcluded (c : Config) (path : Bytes) : Bool :=
  let tails := tails (normalizePath path)
  c.exclude.any fun pattern => tails.any fun tail =>
    Glob.isMatch pattern tail || (heads tail).any fun head => Glob.isMatch pattern head

/-- The declaration is not examined. -/
def skips (c : Config) (d : Declaration) : Bool :=
  (d.isPrivate && !c.includePrivate) || (d.isMagic && c.excludeMagic)

/-- The registered checks whose codes are reported. -/
def checks (c : Config) : List Check := Check.registered.filter fun check => c.isEnabled check.id

/-- Without patterns no path is excluded. -/
theorem isExcluded_nil (c : Config) (h : c.exclude = []) (path : Bytes) :
    c.isExcluded path = false := by
  simp [isExcluded, h]

end Config

end DocLint
