import DocLint.Lint.Config

/-!
# Files and directories

A tree of files, how paths are followed in it, and which of its files a run examines: all files with
the extension `.py` below a directory that are not excluded, without descending into excluded
directories, in the order of their paths.

A file may be one that cannot be opened; it is collected like any other.  A directory that may not be
listed is passed over.  Where the listing of a directory fails for another reason, no files are
collected if the directory was named itself; below one that was named, the walk ends there, since an
iterator over directories that reports an error is at its end, and what has been collected so far
stands.  A link to a directory is not followed below a directory: it stands as one without entries.

* `genericPath_cons_cons`: repeated slashes count as one.
-/

namespace DocLint

open Bytes

/-- Why a directory cannot be listed. -/
inductive ListingError
  | forbidden
  | failed (reason : Bytes)
deriving DecidableEq, Repr

/-- A file with its content, if it can be opened, or a directory with its named entries, if it can be
listed. -/
inductive FileTree
  | file (content : Option Bytes)
  | directory (entries : List (Bytes × FileTree))
  | unlisted (error : ListingError)

/-- A file of a tree with the path that leads to it.  The content is missing if it cannot be opened. -/
structure SourceFile where
  path : Bytes
  content : Option Bytes
deriving DecidableEq, Repr

namespace FileTree

/-! ### Paths -/

/-- The path of an entry of a directory. -/
def childPath (path name : Bytes) : Bytes :=
  if path.getLast? = some Glob.slash then path ++ name else path ++ [Glob.slash] ++ name

/-- The path with one slash wherever there are several. -/
def genericPath : Bytes → Bytes
  | c :: d :: rest =>
    if c = Glob.slash ∧ d = Glob.slash then genericPath (d :: rest)
    else c :: genericPath (d :: rest)
  | s => s

/-- Repeated slashes count as one. -/
theorem genericPath_cons_cons (rest : Bytes) :
    genericPath (Glob.slash :: Glob.slash :: rest) = genericPath (Glob.slash :: rest) := by
  simp [genericPath]

/-- Follows the components of a path.  `above` are the directories that enclose `tree`, the
innermost first; an empty component and `.` stay in a directory, `..` leaves it. -/
def follow (above : List FileTree) (tree : FileTree) : List Bytes → Option FileTree
  | [] => some tree
  | component :: rest =>
    match tree with
    | file _ => none
    | unlisted _ => none
    | directory entries =>
      if component = [] ∨ component = ascii "." then follow above tree rest
      else if component = ascii ".." then
        match above with
        | [] => none
        | outer :: outermost => follow outermost outer rest
      else
        match entries.lookup component with
        | none => none
        | some inner => follow (tree :: above) inner rest

/-- What a relative path leads to.  The empty path leads nowhere. -/
def find? (tree : FileTree) (path : Bytes) : Option FileTree :=
  if path = [] ∨ path.head? = some Glob.slash then none
  else follow [] tree (splitOn Glob.slash path)

/-! ### Building a tree -/

/-- The entries with a tree under the given components; directories on the way are made. -/
def insert (leaf : FileTree) : List Bytes → List (Bytes × FileTree) → List (Bytes × FileTree)
  | [], entries => entries
  | name :: rest, entries =>
    let inner := match entries.lookup name with
      | some (directory inner) => inner
      | _ => []
    let node := match rest, leaf with
      | [], file content => file content
      | _, _ => directory (insert leaf rest inner)
    (name, node) :: entries.filter fun entry => entry.1 != name

/-- The directory that holds some files, given with their paths; a path that ends in a slash stands
for a directory. -/
def ofFiles (files : List (Bytes × Bytes)) : FileTree :=
  directory (files.foldl (fun entries (path, content) =>
    let components := (splitOn Glob.slash path).filter fun c => !c.isEmpty
    let leaf := if path.getLast? = some Glob.slash then directory [] else file (some content)
    insert leaf components entries) [])

/-! ### Collecting files -/

/-- The file has the extension of source files. -/
def isSourceName (name : Bytes) : Bool := endsWith name (ascii ".py") && decide (3 < name.length)

mutual

/-- The walk goes on behind a tree with the given path: it comes to no directory the listing of which
fails. -/
def isPassed (config : Config) (path : Bytes) : FileTree → Bool
  | file _ => true
  | directory entries => config.isExcluded (genericPath path) || arePassed config path entries
  | unlisted .forbidden => true
  | unlisted (.failed _) => config.isExcluded (genericPath path)

/-- The walk goes on behind all entries of the directory with the given path. -/
def arePassed (config : Config) (path : Bytes) : List (Bytes × FileTree) → Bool
  | [] => true
  | (name, tree) :: rest =>
    isPassed config (childPath path name) tree && arePassed config path rest

end

mutual

/-- The files to examine below a directory's entry with the given name and path. -/
def collectNode (config : Config) (name path : Bytes) : FileTree → List SourceFile
  | file content =>
    if isSourceName name && !config.isExcluded (genericPath path) then [⟨path, content⟩] else []
  | directory entries =>
    -- An excluded directory is not entered.
    if config.isExcluded (genericPath path) then [] else collectEntries config path entries
  | unlisted _ => []

/-- The files to examine below the entries of the directory with the given path. -/
def collectEntries (config : Config) (path : Bytes) : List (Bytes × FileTree) → List SourceFile
  | [] => []
  | (name, tree) :: rest =>
    let inner := childPath path name
    collectNode config name inner tree ++
      if isPassed config inner tree then collectEntries config path rest else []

end

/-- The order of bytes, a shorter text before its continuations. -/
def pathLe : Bytes → Bytes → Bool
  | [], _ => true
  | _ :: _, [] => false
  | c :: r, d :: s => if c = d then pathLe r s else decide (c < d)

/-- The files that a run examines when it is given a path that leads to `tree`.  A file that is named
itself is examined whatever its extension. -/
def collect (config : Config) (path : Bytes) (tree : FileTree) : List SourceFile :=
  match tree with
  | file content => if config.isExcluded (genericPath path) then [] else [⟨path, content⟩]
  | directory entries =>
    (collectEntries config path entries).mergeSort fun a b => pathLe a.path b.path
  | unlisted _ => []

/-- The files that a run examines when it is given a path, or why there are none to be found. -/
def collect? (config : Config) (path : Bytes) : Option FileTree → Except Bytes (List SourceFile)
  | none => .error (ascii "path '" ++ path ++ ascii "' does not exist")
  | some (unlisted (.failed reason)) =>
    .error (ascii "cannot read directory '" ++ path ++ ascii "': " ++ reason)
  | some tree => .ok (tree.collect config path)

end FileTree

end DocLint
