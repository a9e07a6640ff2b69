import DocLint.FileTree
import DocLint.Proofs.Paths.Exclusion

/-!
# Pruning loses nothing

The files to examine are collected without entering excluded directories.  Since everything below an
excluded directory is excluded as well, the files collected are all the files of the tree that have
the extension of source files and are not excluded themselves.

* `isExcluded_childPath`: an entry of an excluded directory is excluded.
* `collectEntries_eq_filter`: collecting is filtering all files.
* `collect_perm_filter`: the files collected from a directory, and what they depend on.
-/

namespace DocLint

open Bytes

namespace FileTree

/-! ### Names and paths -/

/-- A name that an entry of a directory can have, without backslashes. -/
structure IsEntryName (name : Bytes) : Prop where
  ne_nil : name ≠ []
  ne_dot : name ≠ ascii "."
  no_slash : Glob.slash ∉ name
  no_backslash : backslash ∉ name

instance (name : Bytes) : Decidable (IsEntryName name) :=
  decidable_of_iff (name ≠ [] ∧ name ≠ ascii "." ∧ Glob.slash ∉ name ∧ backslash ∉ name)
    ⟨fun ⟨h, h', h'', h'''⟩ => ⟨h, h', h'', h'''⟩, fun ⟨h, h', h'', h'''⟩ => ⟨h, h', h'', h'''⟩⟩

/-- The last component of a path. -/
def lastName (path : Bytes) : Bytes := (splitOn Glob.slash path).getLast (splitOn_ne_nil _ _)

/-- The path leads through a directory to an entry of this name. -/
def EndsIn (path name : Bytes) : Prop := ∃ front, path = front ++ Glob.slash :: name

theorem endsIn_childPath (path name : Bytes) : EndsIn (childPath path name) name := by
  unfold childPath
  split
  next hslash =>
    obtain ⟨front, rfl⟩ := List.getLast?_eq_some_iff.1 hslash
    exact ⟨front, by simp⟩
  · exact ⟨path, by simp⟩

theorem EndsIn.lastName_eq {path name : Bytes} (h : EndsIn path name) (hname : IsEntryName name) :
    lastName path = name := by
  obtain ⟨front, rfl⟩ := h
  have hsplit := splitOn_append_cons Glob.slash front name
  rw [splitOn_eq_singleton hname.no_slash] at hsplit
  simp only [lastName, hsplit, List.getLast_append_singleton]

/-- A name does not end in a slash. -/
theorem EndsIn.getLast?_ne {path name : Bytes} (h : EndsIn path name) (hname : IsEntryName name) :
    path.getLast? ≠ some Glob.slash := fun hslash => by
  obtain ⟨front, rfl⟩ := h
  rw [List.append_cons, List.getLast?_append_of_ne_nil _ hname.ne_nil] at hslash
  exact hname.no_slash (List.mem_of_getLast? hslash)

/-- The path of an entry takes one more slash. -/
theorem EndsIn.childPath_eq {path name : Bytes} (h : EndsIn path name) (hname : IsEntryName name)
    (entry : Bytes) : childPath path entry = path ++ Glob.slash :: entry := by
  rw [childPath, if_neg (h.getLast?_ne hname), List.append_assoc, List.singleton_append]

/-! ### Repeated slashes -/

/-- Texts are freed of repeated slashes one by one, unless slashes meet at the seam. -/
theorem genericPath_append {s t : Bytes}
    (h : s.getLast? ≠ some Glob.slash ∨ t.head? ≠ some Glob.slash) :
    genericPath (s ++ t) = genericPath s ++ genericPath t := by
  fun_induction genericPath s with
  | case1 c d rest hslashes ih =>
      rw [List.cons_append, List.cons_append, genericPath, if_pos hslashes, ← List.cons_append]
      exact ih (by rwa [List.getLast?_cons_cons] at h)
  | case2 c d rest hother ih =>
      rw [List.cons_append, List.cons_append, genericPath, if_neg hother, ← List.cons_append,
        ih (by rwa [List.getLast?_cons_cons] at h), List.cons_append]
  | case3 s hshort =>
      rcases s with _ | ⟨c, _ | ⟨d, rest⟩⟩
      · rfl
      · cases t with
        | nil => simp [genericPath]
        | cons d t =>
            have hseam : ¬(c = Glob.slash ∧ d = Glob.slash) := by
              rintro ⟨rfl, rfl⟩
              simp at h
            rw [List.singleton_append, genericPath, if_neg hseam, List.singleton_append]
      · exact absurd rfl (hshort c d rest)

theorem genericPath_eq_self {s : Bytes} (h : Glob.slash ∉ s) : genericPath s = s := by
  fun_induction genericPath s with
  | case1 c d rest hslashes => exact absurd (hslashes.1 ▸ List.mem_cons_self) h
  | case2 c d rest _ ih => rw [ih fun hmem => h (List.mem_cons_of_mem c hmem)]
  | case3 => rfl

theorem getLast?_genericPath (s : Bytes) : (genericPath s).getLast? = s.getLast? := by
  fun_induction genericPath s with
  | case1 c d rest _ ih => rw [ih, List.getLast?_cons_cons]
  | case2 c d rest _ ih =>
      have hne : genericPath (d :: rest) ≠ [] := fun hnil => by
        rw [hnil] at ih
        exact absurd ih.symm (by simp)
      rw [← List.singleton_append, List.getLast?_append_of_ne_nil _ hne, ih, List.getLast?_cons_cons]
  | case3 => rfl

/-- Without repeated slashes a path still ends in its last name. -/
theorem EndsIn.genericPath {path name : Bytes} (h : EndsIn path name) (hname : IsEntryName name) :
    EndsIn (genericPath path) name := by
  obtain ⟨front, rfl⟩ := h
  have hhead : name.head? ≠ some Glob.slash := fun hslash =>
    hname.no_slash (List.mem_of_head? hslash)
  have hlast : (FileTree.genericPath (front ++ [Glob.slash])).getLast? = some Glob.slash := by
    rw [getLast?_genericPath, List.getLast?_concat]
  obtain ⟨behind, hbehind⟩ := List.getLast?_eq_some_iff.1 hlast
  refine ⟨behind, ?_⟩
  rw [List.append_cons, genericPath_append (.inr hhead), genericPath_eq_self hname.no_slash,
    hbehind, List.append_assoc, List.singleton_append]

theorem EndsIn.genericPath_childPath {path name entry : Bytes} (h : EndsIn path name)
    (hname : IsEntryName name) (hentry : IsEntryName entry) :
    FileTree.genericPath (childPath path entry) =
      FileTree.genericPath path ++ Glob.slash :: entry := by
  have hslash : FileTree.genericPath (Glob.slash :: entry) = Glob.slash :: entry := by
    have hhead : entry.head? ≠ some Glob.slash := fun hhead =>
      hentry.no_slash (List.mem_of_head? hhead)
    have hseam := genericPath_append (s := [Glob.slash]) (.inr hhead)
    rwa [genericPath_eq_self hentry.no_slash] at hseam
  rw [h.childPath_eq hname, genericPath_append (.inl (h.getLast?_ne hname)), hslash]

/-! ### Below an excluded directory -/

/-- A path that ends in a name is not the current directory. -/
theorem EndsIn.normalizePath_ne {path name : Bytes} (h : EndsIn path name)
    (hname : IsEntryName name) : Config.normalizePath path ≠ ascii "." := by
  obtain ⟨front, rfl⟩ := h
  intro hdot
  have hkeep : (name.map fun c => if c = backslash then Glob.slash else c) = name := by
    refine (List.map_congr_left fun c hc => ?_).trans (List.map_id name)
    have hne : c ≠ backslash := fun heq => hname.no_backslash (heq ▸ hc)
    exact if_neg hne
  have hsplit : splitOn Glob.slash ((front ++ Glob.slash :: name).map fun c =>
      if c = backslash then Glob.slash else c) =
      splitOn Glob.slash (front.map fun c => if c = backslash then Glob.slash else c) ++ [name] := by
    have hslash : (if Glob.slash = backslash then Glob.slash else Glob.slash) = Glob.slash := rfl
    rw [List.map_append, List.map_cons, hslash, hkeep, splitOn_append_cons,
      splitOn_eq_singleton hname.no_slash]
  -- Nothing but `.` would be left of the components, the last of which is the name.
  have hsuffix := Config.splitOn_dropCurrent_suffix
    ((front ++ Glob.slash :: name).map fun c => if c = backslash then Glob.slash else c)
  rw [Config.normalizePath] at hdot
  rw [hdot, hsplit, splitOn_eq_singleton (by decide)] at hsuffix
  obtain ⟨before, hbefore⟩ := hsuffix
  exact hname.ne_dot (List.append_inj_right' hbefore rfl |> List.singleton_inj.1).symm

variable (config : Config)

/-- An entry of an excluded directory is excluded. -/
theorem EndsIn.isExcluded_childPath {path name entry : Bytes} (h : EndsIn path name)
    (hname : IsEntryName name) (hentry : IsEntryName entry)
    (hexcluded : config.isExcluded (FileTree.genericPath path) = true) :
    config.isExcluded (FileTree.genericPath (childPath path entry)) = true := by
  rw [h.genericPath_childPath hname hentry]
  exact Config.isExcluded_append ((h.genericPath hname).normalizePath_ne hname) hexcluded entry

/-! ### All files of a tree -/

mutual

/-- The entries of all directories in the tree have names, and no listing fails; files that cannot be
opened and directories that may not be listed do no harm. -/
def IsWellNamed : FileTree → Prop
  | file _ => True
  | directory entries => AreWellNamed entries
  | unlisted .forbidden => True
  | unlisted (.failed _) => False

/-- The entries have names, and so have the entries below them. -/
def AreWellNamed : List (Bytes × FileTree) → Prop
  | [] => True
  | (name, tree) :: rest => IsEntryName name ∧ IsWellNamed tree ∧ AreWellNamed rest

end

mutual

/-- The file at a path, or all files below it. -/
def filesAt (path : Bytes) : FileTree → List SourceFile
  | file content => [⟨path, content⟩]
  | directory entries => filesBelow path entries
  | unlisted _ => []

/-- All files below the entries of the directory with the given path. -/
def filesBelow (path : Bytes) : List (Bytes × FileTree) → List SourceFile
  | [] => []
  | (name, tree) :: rest => filesAt (childPath path name) tree ++ filesBelow path rest

end

/-- The file has the extension of source files and is not excluded itself. -/
def isWanted (f : SourceFile) : Bool :=
  isSourceName (lastName f.path) && !config.isExcluded (FileTree.genericPath f.path)

mutual

/-- All files below an excluded path are excluded. -/
theorem isExcluded_of_mem_filesAt {path name : Bytes} (hpath : EndsIn path name)
    (hname : IsEntryName name) (hexcluded : config.isExcluded (FileTree.genericPath path) = true) :
    ∀ tree, IsWellNamed tree → ∀ f ∈ filesAt path tree,
      config.isExcluded (FileTree.genericPath f.path) = true
  | file content, _, f, hf => by
      rw [filesAt, List.mem_singleton] at hf
      rw [hf]
      exact hexcluded
  | directory entries, htree, f, hf =>
      isExcluded_of_mem_filesBelow hpath hname hexcluded entries htree f hf
  | unlisted _, _, f, hf => by cases hf

theorem isExcluded_of_mem_filesBelow {path name : Bytes} (hpath : EndsIn path name)
    (hname : IsEntryName name) (hexcluded : config.isExcluded (FileTree.genericPath path) = true) :
    ∀ entries, AreWellNamed entries → ∀ f ∈ filesBelow path entries,
      config.isExcluded (FileTree.genericPath f.path) = true
  | [], _, f, hf => by cases hf
  | (entry, tree) :: rest, hentries, f, hf => by
      obtain ⟨hentry, htree, hrest⟩ := hentries
      rcases List.mem_append.1 hf with hf | hf
      · exact isExcluded_of_mem_filesAt (endsIn_childPath path entry) hentry
          (hpath.isExcluded_childPath config hname hentry hexcluded) tree htree f hf
      · exact isExcluded_of_mem_filesBelow hpath hname hexcluded rest hrest f hf

end

mutual

/-- The walk goes through a tree without failing directories. -/
theorem isPassed_of_isWellNamed (path : Bytes) : ∀ tree, IsWellNamed tree →
    isPassed config path tree = true
  | file _, _ => rfl
  | directory entries, htree => by
      rw [isPassed, arePassed_of_areWellNamed path entries htree, Bool.or_true]
  | unlisted .forbidden, _ => rfl
  | unlisted (.failed _), htree => htree.elim

theorem arePassed_of_areWellNamed (path : Bytes) : ∀ entries, AreWellNamed entries →
    arePassed config path entries = true
  | [], _ => rfl
  | (name, tree) :: rest, hentries => by
      obtain ⟨-, htree, hrest⟩ := hentries
      rw [arePassed, isPassed_of_isWellNamed (childPath path name) tree htree,
        arePassed_of_areWellNamed path rest hrest]
      rfl

end

mutual

/-- Collecting is filtering: an excluded directory holds nothing but excluded files. -/
theorem collectNode_eq_filter {path name : Bytes} (hpath : EndsIn path name)
    (hname : IsEntryName name) : ∀ tree, IsWellNamed tree →
      collectNode config name path tree = (filesAt path tree).filter (isWanted config)
  | file content, _ => by
      rw [collectNode, filesAt, List.filter_cons, List.filter_nil, isWanted,
        hpath.lastName_eq hname]
  | directory entries, htree => by
      rw [collectNode]
      split
      next hexcluded =>
        refine (List.filter_eq_nil_iff.2 fun f hf => ?_).symm
        have hf := isExcluded_of_mem_filesBelow config hpath hname hexcluded entries htree f hf
        simp [isWanted, hf]
      · exact collectEntries_eq_filter path entries htree
  | unlisted _, _ => rfl

/-- The same of the entries of a directory that is entered. -/
theorem collectEntries_eq_filter (path : Bytes) : ∀ entries, AreWellNamed entries →
    collectEntries config path entries = (filesBelow path entries).filter (isWanted config)
  | [], _ => rfl
  | (entry, tree) :: rest, hentries => by
      obtain ⟨hentry, htree, hrest⟩ := hentries
      rw [collectEntries, filesBelow, List.filter_append,
        isPassed_of_isWellNamed config (childPath path entry) tree htree, if_pos rfl,
        collectNode_eq_filter (endsIn_childPath path entry) hentry tree htree,
        collectEntries_eq_filter path rest hrest]

end

/-! ### What is not looked at -/

mutual

/-- The tree at a path, its excluded directories without their entries. -/
def pruned (path : Bytes) : FileTree → FileTree
  | file content => file content
  | directory entries =>
    if config.isExcluded (FileTree.genericPath path) then directory []
    else directory (prunedEntries path entries)
  | unlisted error =>
    if config.isExcluded (FileTree.genericPath path) then directory [] else unlisted error

/-- The entries of the directory with the given path, each of them pruned. -/
def prunedEntries (path : Bytes) : List (Bytes × FileTree) → List (Bytes × FileTree)
  | [] => []
  | (name, tree) :: rest => (name, pruned (childPath path name) tree) :: prunedEntries path rest

end

mutual

theorem isPassed_pruned (path : Bytes) : ∀ tree,
    isPassed config path (pruned config path tree) = isPassed config path tree
  | file content => rfl
  | directory entries => by
      rw [pruned]
      split
      next hexcluded => rw [isPassed, isPassed, hexcluded, Bool.true_or, Bool.true_or]
      next => rw [isPassed, isPassed, arePassed_pruned path entries]
  | unlisted .forbidden => by
      rw [pruned]
      split
      next hexcluded => rw [isPassed, hexcluded, Bool.true_or, isPassed]
      next => rfl
  | unlisted (.failed _) => by
      rw [pruned]
      split
      next hexcluded => rw [isPassed, hexcluded, Bool.true_or, isPassed, hexcluded]
      next => rfl

/-- Whether the listing of an excluded directory would fail does not matter. -/
theorem arePassed_pruned (path : Bytes) : ∀ entries,
    arePassed config path (prunedEntries config path entries) = arePassed config path entries
  | [] => rfl
  | (name, tree) :: rest => by
      rw [prunedEntries, arePassed, arePassed, isPassed_pruned (childPath path name) tree,
        arePassed_pruned path rest]

end

mutual

theorem collectNode_pruned (name path : Bytes) : ∀ tree,
    collectNode config name path (pruned config path tree) = collectNode config name path tree
  | file content => rfl
  | directory entries => by
      rw [pruned]
      split
      next hexcluded => rw [collectNode, collectNode, if_pos hexcluded, if_pos hexcluded]
      next hentered =>
        rw [collectNode, collectNode, if_neg hentered, if_neg hentered,
          collectEntries_pruned path entries]
  | unlisted error => by
      rw [pruned]
      split
      next hexcluded => rw [collectNode, if_pos hexcluded, collectNode]
      next => rfl

/-- The entries of excluded directories are not looked at. -/
theorem collectEntries_pruned (path : Bytes) : ∀ entries,
    collectEntries config path (prunedEntries config path entries) =
      collectEntries config path entries
  | [] => rfl
  | (name, tree) :: rest => by
      rw [prunedEntries, collectEntries, collectEntries,
        collectNode_pruned name (childPath path name) tree,
        isPassed_pruned config (childPath path name) tree, collectEntries_pruned path rest]

end

/-! ### The order of paths -/

theorem pathLe_trans {p q r : Bytes} (h : pathLe p q = true) (h' : pathLe q r = true) :
    pathLe p r = true := by
  induction p generalizing q r with
  | nil => rfl
  | cons c p ih =>
      cases q with
      | nil => cases h
      | cons d q =>
          cases r with
          | nil => cases h'
          | cons e r =>
              rw [pathLe] at h h' ⊢
              split at h
              next hcd =>
                subst hcd
                split at h'
                next hce => exact (if_pos hce).trans (ih h h')
                next hce => exact (if_neg hce).trans h'
              next hcd =>
                have hlt : c < d := of_decide_eq_true h
                split at h'
                next hde =>
                  subst hde
                  exact (if_neg hcd).trans h
                next hde =>
                  have hlt' : c < e := UInt8.lt_trans hlt (of_decide_eq_true h')
                  exact (if_neg (UInt8.ne_of_lt hlt')).trans (decide_eq_true hlt')

theorem pathLe_total (p q : Bytes) : (pathLe p q || pathLe q p) = true := by
  induction p generalizing q with
  | nil => rfl
  | cons c p ih =>
      cases q with
      | nil => rfl
      | cons d q =>
          rw [pathLe, pathLe]
          by_cases hcd : c = d
          · subst hcd
            rw [if_pos rfl, if_pos rfl, ih]
          · rw [if_neg hcd, if_neg (Ne.symm hcd), Bool.or_eq_true, decide_eq_true_eq,
              decide_eq_true_eq]
            exact UInt8.lt_or_lt_of_ne hcd

/-! ### The files collected -/

/-- Pruning loses nothing.  A path is excluded if some pattern matches some of its components in a
row, and then so is every path below it.  The files collected from a directory are therefore all its
files that have the extension of source files and are not excluded themselves, in the order of their
paths, although what lies in excluded directories is not looked at. -/
theorem collect_perm_filter :
    (∀ path, config.isExcluded path = true ↔ ∃ pattern ∈ config.exclude, ∃ run,
        IsComponentRun run (Config.normalizePath path) ∧ Glob.isMatch pattern run = true) ∧
      (∀ path, Config.normalizePath path ≠ ascii "." → config.isExcluded path = true →
        ∀ rest, config.isExcluded (path ++ [Glob.slash] ++ rest) = true) ∧
      ∀ path entries, AreWellNamed entries →
        (collect config path (directory entries)).Perm
            ((filesBelow path entries).filter (isWanted config)) ∧
          (collect config path (directory entries)).Pairwise
            (fun f g => pathLe f.path g.path = true) ∧
          collect config path (directory (prunedEntries config path entries)) =
            collect config path (directory entries) := by
  refine ⟨config.isExcluded_iff, fun path hnormal hexcluded rest => ?_,
    fun path entries hentries => ⟨?_, ?_, ?_⟩⟩
  · rw [List.append_assoc, List.singleton_append]
    exact Config.isExcluded_append hnormal hexcluded rest
  · rw [collect, collectEntries_eq_filter config path entries hentries]
    exact List.mergeSort_perm _ _
  · have htrans (f g h : SourceFile) : pathLe f.path g.path = true → pathLe g.path h.path = true →
        pathLe f.path h.path = true := pathLe_trans
    have htotal (f g : SourceFile) : (pathLe f.path g.path || pathLe g.path f.path) = true :=
      pathLe_total f.path g.path
    exact List.pairwise_mergeSort htrans htotal _
  · rw [collect, collect, collectEntries_pruned]

/-- A tree with an excluded directory, in which files lie at two depths, beside a file to examine, one
that cannot be opened and a directory that may not be listed. -/
def sampleEntries : List (Bytes × FileTree) :=
  [(ascii "src", directory [(ascii "z.py", file none),
      (ascii "build", directory [(ascii "a.py", file (some [])),
        (ascii "deep", directory [(ascii "b.py", file (some []))])]),
      (ascii "notes", file (some []))]),
    (ascii "private", unlisted .forbidden), (ascii "a.py", file (some []))]

/-- Everything named `build` is excluded. -/
def sampleConfig : Config := { exclude := [ascii "build"] }

theorem collect_perm_filter_sampleEntries :
    (Config.normalizePath (ascii "./src/build") ≠ ascii "." ∧
        sampleConfig.isExcluded (ascii "./src/build") = true ∧ AreWellNamed sampleEntries) ∧
      sampleConfig.isExcluded (ascii "./src/build" ++ [Glob.slash] ++ ascii "deep/b.py") = true ∧
      (collect sampleConfig (ascii ".") (directory sampleEntries)).Perm
        [⟨ascii "./src/z.py", none⟩, ⟨ascii "./a.py", some []⟩] := by
  have hnormal : Config.normalizePath (ascii "./src/build") ≠ ascii "." := by decide
  have hexcluded : sampleConfig.isExcluded (ascii "./src/build") = true := by decide
  have hnamed : AreWellNamed sampleEntries := by
    simp only [sampleEntries, AreWellNamed, IsWellNamed, and_true]
    decide
  have hfilter : (filesBelow (ascii ".") sampleEntries).filter (isWanted sampleConfig) =
      [⟨ascii "./src/z.py", none⟩, ⟨ascii "./a.py", some []⟩] := by decide
  obtain ⟨-, hbelow, hcollect⟩ := collect_perm_filter sampleConfig
  refine ⟨⟨hnormal, hexcluded, hnamed⟩, hbelow _ hnormal hexcluded _, ?_⟩
  rw [← hfilter]
  exact (hcollect (ascii ".") sampleEntries hnamed).1

end FileTree

end DocLint
