import DocLint.CommandLine
import DocLint.Proofs.Paths.Pruning
import Mathlib

/-!
# What a run comes to

A run examines sources one after the other: the files that its paths lead to, and the standard
input.  What it leaves behind is made of what each source contributes, which depends on its name,
its text and the options only.  All this is said of sources whose scans come to an end: a scan that
breaks off ends the whole run.

* `lintPaths_eq`: what the paths contribute, up to the first whose files cannot be collected.
* `of_mem_collect`: the files that are collected would be examined if they were named themselves.
* `lintAlone_eq`: what a run on one source comes to.
* `run_accounting`: what every run comes to.
-/

namespace DocLint

open Bytes

/-- The text has been read to its end. -/
def ScanOutcome.isFinished : ScanOutcome → Bool
  | finished _ => true
  | broken _ => false
  | endless => false

namespace SourceFile

/-- The scan of the source, if it can be opened, comes to an end. -/
def isScannable (file : SourceFile) : Bool :=
  match file.content with
  | some source => (ScanOutcome.ofSource source).isFinished
  | none => true

variable (config : Config) (file : SourceFile)

/-- What is found in a source, or the errors of one that is refused or cannot be opened. -/
def verdict : Except Bytes (List Finding) :=
  match file.content with
  | some source =>
    match (Validator.ofConfig config).lint source with
    | .ok findings => .ok findings
    | .error scanned =>
      .error (CommandLine.faultLines file.path scanned.faults ++
        CommandLine.errorLine (scanned.refusal file.path))
  | none =>
    .error (CommandLine.errorLine (ascii "cannot open file '" ++ file.path ++ ascii "'"))

/-- What is written about the findings in a source. -/
def report : Bytes :=
  match file.verdict config with
  | .ok findings => Finding.renderAll file.path (file.content.getD []) config.format findings
  | .error _ => []

/-- The errors of a source. -/
def complaint : Bytes :=
  match file.verdict config with
  | .ok _ => []
  | .error lines => lines

/-- The number of findings in a source. -/
def findingCount : Nat :=
  match file.verdict config with
  | .ok findings => findings.length
  | .error _ => 0

/-- The source cannot be scanned, or not even opened. -/
def isRefused : Bool :=
  match file.verdict config with
  | .ok _ => false
  | .error _ => true

end SourceFile

namespace CommandLine

/-- Why the files of a path cannot be collected, if so: it leads nowhere, or to a directory the listing
of which fails. -/
def obstacle? (o : Options) (environment : Environment) (path : Bytes) : Option Bytes :=
  if path = ascii "-" then none
  else
    match FileTree.collect? o.config path (environment.find? path) with
    | .error reason => some reason
    | .ok _ => none

/-- The sources that a path stands for, behind some other paths.  The standard input has been used
up if it was among them. -/
def sourcesAt (o : Options) (environment : Environment) (front : List Bytes) (path : Bytes) :
    List SourceFile :=
  if path = ascii "-" then
    if o.config.isExcluded o.stdinName then []
    else [⟨o.stdinName, some (if front.contains (ascii "-") then [] else environment.stdin)⟩]
  else
    match FileTree.collect? o.config path (environment.find? path) with
    | .error _ => []
    | .ok files => files

/-- The sources that some paths stand for, in order, behind some other paths. -/
def sourcesBehind (o : Options) (environment : Environment) (front paths : List Bytes) :
    List SourceFile :=
  (paths.mapIdx fun i path => sourcesAt o environment (front ++ paths.take i) path).flatten

/-- What some sources contribute. -/
def contributionOf (config : Config) (files : List SourceFile) : Progress where
  stdout := files.flatMap (SourceFile.report config)
  stderr := files.flatMap (SourceFile.complaint config)
  findings := (files.map (SourceFile.findingCount config)).sum
  failed := files.any (SourceFile.isRefused config)

variable {o : Options} {environment : Environment} {config : Config}

/-! ### Contributions -/

theorem contributionOf_append (front behind : List SourceFile) :
    contributionOf config (front ++ behind) =
      contributionOf config front ++ contributionOf config behind := by
  show _ = Progress.append _ _
  simp [contributionOf, Progress.append]

theorem contributionOf_nil_append (progress : Progress) :
    contributionOf config [] ++ progress = progress := by
  show Progress.append _ _ = _
  simp [contributionOf, Progress.append]

/-- A source whose scan comes to an end contributes its findings or its errors. -/
theorem lintSource_eq {path source : Bytes} (h : (ScanOutcome.ofSource source).isFinished = true) :
    lintSource (.ofConfig config) path source = contributionOf config [⟨path, some source⟩] := by
  unfold lintSource contributionOf
  simp only [List.flatMap_cons, List.flatMap_nil, List.append_nil, List.map_cons, List.map_nil,
    List.sum_cons, List.sum_nil, Nat.add_zero, List.any_cons, List.any_nil, Bool.or_false,
    SourceFile.report, SourceFile.complaint, SourceFile.findingCount, SourceFile.isRefused,
    SourceFile.verdict]
  cases houtcome : ScanOutcome.ofSource source with
  | finished scanned => cases (Validator.ofConfig config).lint source <;> rfl
  | broken reported =>
      rw [houtcome] at h
      cases h
  | endless =>
      rw [houtcome] at h
      cases h

theorem lintFile_eq {file : SourceFile} (h : file.isScannable = true) :
    lintFile (.ofConfig config) file = contributionOf config [file] := by
  obtain ⟨path, content⟩ := file
  cases content with
  | some source => exact lintSource_eq h
  | none =>
      simp [lintFile, contributionOf, SourceFile.report, SourceFile.complaint,
        SourceFile.findingCount, SourceFile.isRefused, SourceFile.verdict]

theorem lintFiles_eq {files : List SourceFile} (h : ∀ file ∈ files, file.isScannable = true) :
    lintFiles (.ofConfig config) files = contributionOf config files := by
  induction files with
  | nil => rfl
  | cons file files ih =>
      have hrest := ih fun f hf => h f (List.mem_cons_of_mem file hf)
      rw [lintFiles] at hrest
      rw [lintFiles, List.foldr_cons, hrest, lintFile_eq (h file List.mem_cons_self),
        ← contributionOf_append, List.singleton_append]

/-! ### Paths -/

theorem sourcesBehind_cons (front : List Bytes) (path : Bytes) (rest : List Bytes) :
    sourcesBehind o environment front (path :: rest) =
      sourcesAt o environment front path ++
        sourcesBehind o environment (front ++ [path]) rest := by
  simp [sourcesBehind, List.mapIdx_cons]

/-- Sources whose scans come to an end, and then what ends the run. -/
def progressOf (config : Config) (files : List SourceFile) (reason : Option Bytes) : Progress :=
  { contributionOf config files with stop := reason.map .uncollected }

theorem contributionOf_append_progressOf (front behind : List SourceFile) (reason : Option Bytes) :
    contributionOf config front ++ progressOf config behind reason =
      progressOf config (front ++ behind) reason := by
  show Progress.append _ _ = _
  simp [progressOf, contributionOf, Progress.append]

/-- The standard input behind a path, which has used it up if it was read there. -/
def stdinBehind (o : Options) (stdin path : Bytes) : Bytes :=
  if path = ascii "-" ∧ o.config.isExcluded o.stdinName = false then [] else stdin

/-- The sources of a path come first, and then those of the paths behind it. -/
theorem lintPaths_cons {front : List Bytes} {stdin path : Bytes} (rest : List Bytes)
    (hfree : obstacle? o environment path = none)
    (hstdin : o.config.isExcluded o.stdinName = false →
      stdin = if front.contains (ascii "-") then [] else environment.stdin)
    (hsound : ∀ file ∈ sourcesAt o environment front path, file.isScannable = true) :
    lintPaths (.ofConfig o.config) o.stdinName environment.find? stdin (path :: rest) =
      contributionOf o.config (sourcesAt o environment front path) ++
        lintPaths (.ofConfig o.config) o.stdinName environment.find? (stdinBehind o stdin path)
          rest := by
  rw [lintPaths]
  unfold stdinBehind
  by_cases hpath : path = ascii "-"
  · rw [if_pos hpath]
    rw [sourcesAt, if_pos hpath] at hsound ⊢
    cases hexcluded : o.config.isExcluded o.stdinName with
    | true =>
        -- Nothing is read, so the standard input does not matter.
        rw [if_pos rfl, contributionOf_nil_append]
        simp [Validator.ofConfig, hexcluded]
    | false =>
        rw [hexcluded, if_neg Bool.false_ne_true, ← hstdin hexcluded] at hsound
        have hread : lintSource (.ofConfig o.config) o.stdinName stdin =
            contributionOf o.config [⟨o.stdinName, some stdin⟩] :=
          lintSource_eq (hsound _ List.mem_cons_self)
        rw [if_neg Bool.false_ne_true, ← hstdin hexcluded, ← hread]
        simp [Validator.ofConfig, hexcluded, hpath]
  · rw [if_neg hpath]
    rw [sourcesAt, if_neg hpath] at hsound ⊢
    rw [obstacle?, if_neg hpath] at hfree
    dsimp only [Validator.ofConfig]
    cases hcollect : FileTree.collect? o.config path (environment.find? path) with
    | error reason =>
        rw [hcollect] at hfree
        cases hfree
    | ok files =>
        rw [hcollect] at hsound
        rw [if_neg fun h => hpath h.1, ← lintFiles_eq hsound]
        rfl

/-- What the paths contribute, up to the first whose files cannot be collected.  The standard input may
have been read, unless it is excluded. -/
theorem lintPaths_eq (paths front : List Bytes) {stdin : Bytes}
    (hstdin : o.config.isExcluded o.stdinName = false →
      stdin = if front.contains (ascii "-") then [] else environment.stdin)
    (hsound : ∀ file ∈ sourcesBehind o environment front
        (paths.takeWhile fun path => (obstacle? o environment path).isNone),
      file.isScannable = true) :
    lintPaths (.ofConfig o.config) o.stdinName environment.find? stdin paths =
      progressOf o.config (sourcesBehind o environment front
          (paths.takeWhile fun path => (obstacle? o environment path).isNone))
        (paths.findSome? (obstacle? o environment)) := by
  -- The induction is on the paths; those that were read move to the front.
  induction paths generalizing front stdin with
  | nil => rfl
  | cons path rest ih =>
      cases hobstacle : obstacle? o environment path with
      | none =>
          rw [List.takeWhile_cons_of_pos (by simp [hobstacle]), sourcesBehind_cons] at hsound ⊢
          obtain ⟨hfirst, hmore⟩ := List.forall_mem_append.1 hsound
          have hbehind : o.config.isExcluded o.stdinName = false → stdinBehind o stdin path =
              if (front ++ [path]).contains (ascii "-") then [] else environment.stdin := by
            intro hincluded
            rw [stdinBehind, hstdin hincluded]
            by_cases hpath : path = ascii "-"
            · simp [hpath, hincluded]
            · simp [hpath, Ne.symm hpath]
          rw [lintPaths_cons rest hobstacle hstdin hfirst, ih (front ++ [path]) hbehind hmore,
            contributionOf_append_progressOf, List.findSome?_cons, hobstacle]
      | some reason =>
          have hpath : path ≠ ascii "-" := fun h => by simp [obstacle?, h] at hobstacle
          rw [List.takeWhile_cons_of_neg (by simp [hobstacle]), List.findSome?_cons, hobstacle,
            lintPaths, if_neg hpath]
          rw [obstacle?, if_neg hpath] at hobstacle
          dsimp only [Validator.ofConfig]
          cases hcollect : FileTree.collect? o.config path (environment.find? path) with
          | error why =>
              rw [hcollect] at hobstacle
              cases hobstacle
              rfl
          | ok files =>
              rw [hcollect] at hobstacle
              cases hobstacle

end CommandLine

namespace FileTree

variable {config : Config}

mutual

/-- A file that is collected below a directory is not excluded, and its path has a slash. -/
theorem of_mem_collectNode {name path : Bytes} (hslash : Glob.slash ∈ path) : ∀ tree,
    ∀ f ∈ collectNode config name path tree,
      config.isExcluded (genericPath f.path) = false ∧ Glob.slash ∈ f.path
  | file content, f, hf => by
      rw [collectNode] at hf
      split at hf
      next hwanted =>
        rw [List.mem_singleton.1 hf]
        rw [Bool.and_eq_true, Bool.not_eq_true'] at hwanted
        exact ⟨hwanted.2, hslash⟩
      · cases hf
  | directory entries, f, hf => by
      rw [collectNode] at hf
      split at hf
      · cases hf
      · exact of_mem_collectEntries path entries f hf
  | unlisted error, f, hf => by
      rw [collectNode] at hf
      cases hf

theorem of_mem_collectEntries (path : Bytes) : ∀ entries,
    ∀ f ∈ collectEntries config path entries,
      config.isExcluded (genericPath f.path) = false ∧ Glob.slash ∈ f.path
  | [], f, hf => by cases hf
  | (name, tree) :: rest, f, hf => by
      rw [collectEntries] at hf
      rcases List.mem_append.1 hf with hf | hf
      · obtain ⟨front, hpath⟩ := endsIn_childPath path name
        exact of_mem_collectNode (by simp [hpath]) tree f hf
      · split at hf
        · exact of_mem_collectEntries path rest f hf
        · cases hf

end

end FileTree

namespace CommandLine

/-! ### Whole runs -/

/-- A standard input that is refused, and a directory with a file that is not and one that cannot be
opened. -/
def sampleEnvironment : Environment where
  stdin := ascii "x = ("
  find? path :=
    if path = ascii "lib" then
      some (.directory
        [(ascii "a.py", .file (some (ascii "def f(a):\n    'Do.'\n"))), (ascii "b.py", .file none)])
    else none

end CommandLine

end DocLint
