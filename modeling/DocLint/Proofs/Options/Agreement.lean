import DocLint.CommandLine
import Mathlib

/-!
# What a run depends on

The values of a list option are looked through for one that matches, so a run depends on which
values there are, and neither on their order nor on how often one of them is given.

* `Config.Alike`, `CommandLine.Options.Alike`: the same values, and the same settings otherwise.
* `Config.Alike.isEnabled_eq`, `Config.Alike.isExcluded_eq`: the same codes are reported, and the
  same paths left out.
* `Config.Alike.lint_eq`, `Config.Alike.collect?_eq`: the same is found, in the same files.
* `CommandLine.Options.Alike.lint_eq`: runs with the same values come to the same.
-/

namespace DocLint

open Bytes CommandLine

namespace CommandLine

/-- The values of a list option in a configuration. -/
def ListOption.listed (c : Config) : ListOption → List Bytes
  | select => c.select
  | ignore => c.ignore
  | exclude => c.exclude

end CommandLine

/-- Every list option has the same values in both configurations, in some order and number, and all
else is equal. -/
structure Config.Alike (c d : Config) : Prop where
  listed_iff : ∀ (option : ListOption) (value : Bytes),
    value ∈ option.listed c ↔ value ∈ option.listed d
  includePrivate_eq : c.includePrivate = d.includePrivate
  excludeMagic_eq : c.excludeMagic = d.excludeMagic
  format_eq : c.format = d.format

/-- The configurations have the same values, and all else is equal. -/
structure CommandLine.Options.Alike (o p : Options) : Prop where
  config : o.config.Alike p.config
  paths_eq : o.paths = p.paths
  stdinName_eq : o.stdinName = p.stdinName

/-! ### Codes and paths -/

section Lists

variable {α : Type} {xs ys : List α}

theorem any_eq_of_mem_iff (h : ∀ x, x ∈ xs ↔ x ∈ ys) (p : α → Bool) : xs.any p = ys.any p := by
  rw [Bool.eq_iff_iff, List.any_eq_true, List.any_eq_true]
  exact exists_congr fun x => and_congr_left fun _ => h x

theorem isEmpty_eq_of_mem_iff (h : ∀ x, x ∈ xs ↔ x ∈ ys) : xs.isEmpty = ys.isEmpty := by
  rw [Bool.eq_iff_iff, List.isEmpty_iff, List.isEmpty_iff, List.eq_nil_iff_forall_not_mem,
    List.eq_nil_iff_forall_not_mem]
  exact forall_congr' fun x => not_congr (h x)

end Lists

namespace Config

variable {c d : Config}

theorem Alike.refl (c : Config) : c.Alike c := ⟨fun _ _ => Iff.rfl, rfl, rfl, rfl⟩

theorem Alike.isEnabled_eq (h : c.Alike d) (code : Bytes) : c.isEnabled code = d.isEnabled code := by
  have hselect : ∀ value, value ∈ c.select ↔ value ∈ d.select := h.listed_iff .select
  have hignore : ∀ value, value ∈ c.ignore ↔ value ∈ d.ignore := h.listed_iff .ignore
  unfold isEnabled beginsLike
  rw [isEmpty_eq_of_mem_iff hselect, any_eq_of_mem_iff hselect, any_eq_of_mem_iff hignore]

theorem Alike.isExcluded_eq (h : c.Alike d) (path : Bytes) : c.isExcluded path = d.isExcluded path :=
  any_eq_of_mem_iff (h.listed_iff .exclude) _

theorem Alike.skips_eq (h : c.Alike d) (declaration : Declaration) :
    c.skips declaration = d.skips declaration := by
  rw [skips, h.includePrivate_eq, h.excludeMagic_eq, skips]

theorem Alike.checks_eq (h : c.Alike d) : c.checks = d.checks :=
  List.filter_congr fun check _ => h.isEnabled_eq check.id

end Config

/-! ### Sources -/

namespace Validator

variable {v w : Validator}

theorem reports_eq (h : v.config.Alike w.config) (d : Declaration) : v.reports d = w.reports d := by
  funext finding
  rw [reports, h.isEnabled_eq, reports]

theorem contribution_eq (h : v.config.Alike w.config) (d : Declaration) (doc : Docstring)
    (check : Check) : v.contribution d doc check = w.contribution d doc check := by
  rw [contribution, reports_eq h, contribution]

theorem runChecks_eq (h : v.config.Alike w.config) (d : Declaration) (doc : Docstring)
    (checks : List Check) : v.runChecks d doc checks = w.runChecks d doc checks := by
  induction checks with
  | nil => rfl
  | cons check rest ih => rw [runChecks, contribution_eq h, ih, runChecks]

theorem validate_eq (h : v.config.Alike w.config) (hchecks : v.checks = w.checks)
    (d : Declaration) : v.validate d = w.validate d := by
  unfold validate
  simp only [h.skips_eq, reports_eq h, runChecks_eq h, hchecks]

end Validator

namespace Config

variable {c d : Config}

/-- The same is found in a source. -/
theorem Alike.lint_eq (h : c.Alike d) (source : Bytes) :
    (Validator.ofConfig c).lint source = (Validator.ofConfig d).lint source := by
  have hvalidate : (Validator.ofConfig c).validate = (Validator.ofConfig d).validate :=
    funext fun declaration => Validator.validate_eq h h.checks_eq declaration
  unfold Validator.lint Validator.findings
  rw [hvalidate]

end Config

/-! ### Files -/

namespace FileTree

variable {c d : Config}

mutual

theorem isPassed_eq (h : c.Alike d) (path : Bytes) : ∀ tree,
    isPassed c path tree = isPassed d path tree
  | file content => by rw [isPassed, isPassed]
  | directory entries => by
      rw [isPassed, h.isExcluded_eq, arePassed_eq h path entries, isPassed]
  | unlisted .forbidden => by rw [isPassed, isPassed]
  | unlisted (.failed reason) => by rw [isPassed, h.isExcluded_eq, isPassed]

theorem arePassed_eq (h : c.Alike d) (path : Bytes) : ∀ entries,
    arePassed c path entries = arePassed d path entries
  | [] => by rw [arePassed, arePassed]
  | (name, tree) :: rest => by
      rw [arePassed, isPassed_eq h (childPath path name) tree, arePassed_eq h path rest, arePassed]

end

mutual

theorem collectNode_eq (h : c.Alike d) (name path : Bytes) : ∀ tree,
    collectNode c name path tree = collectNode d name path tree
  | file content => by rw [collectNode, h.isExcluded_eq, collectNode]
  | directory entries => by
      rw [collectNode, h.isExcluded_eq, collectEntries_eq h path entries, collectNode]
  | unlisted error => by rw [collectNode, collectNode]

theorem collectEntries_eq (h : c.Alike d) (path : Bytes) : ∀ entries,
    collectEntries c path entries = collectEntries d path entries
  | [] => rfl
  | (name, tree) :: rest => by
      rw [collectEntries, collectNode_eq h name (childPath path name) tree,
        isPassed_eq h (childPath path name) tree, collectEntries_eq h path rest, collectEntries]

end

end FileTree

namespace Config

variable {c d : Config}

/-- The same files are examined. -/
theorem Alike.collect_eq (h : c.Alike d) (path : Bytes) (tree : FileTree) :
    tree.collect c path = tree.collect d path := by
  cases tree with
  | file content => rw [FileTree.collect, h.isExcluded_eq, FileTree.collect]
  | directory entries =>
      rw [FileTree.collect, FileTree.collectEntries_eq h path entries, FileTree.collect]
  | unlisted error => rfl

/-- The same files are examined, or none for the same reason. -/
theorem Alike.collect?_eq (h : c.Alike d) (path : Bytes) (node : Option FileTree) :
    FileTree.collect? c path node = FileTree.collect? d path node := by
  unfold FileTree.collect?
  simp only [h.collect_eq]

/-! ### Runs -/

theorem Alike.lintSource_eq (h : c.Alike d) (path source : Bytes) :
    lintSource (.ofConfig c) path source = lintSource (.ofConfig d) path source := by
  unfold lintSource
  rw [h.lint_eq]
  simp only [Validator.ofConfig, h.format_eq]

theorem Alike.lintFile_eq (h : c.Alike d) (file : SourceFile) :
    lintFile (.ofConfig c) file = lintFile (.ofConfig d) file := by
  unfold lintFile
  simp only [h.lintSource_eq]

theorem Alike.lintFiles_eq (h : c.Alike d) (files : List SourceFile) :
    lintFiles (.ofConfig c) files = lintFiles (.ofConfig d) files := by
  unfold lintFiles
  simp only [h.lintFile_eq]

theorem Alike.lintPaths_eq (h : c.Alike d) (stdinName : Bytes)
    (find? : Bytes → Option FileTree) (stdin : Bytes) (paths : List Bytes) :
    lintPaths (.ofConfig c) stdinName find? stdin paths =
      lintPaths (.ofConfig d) stdinName find? stdin paths := by
  induction paths generalizing stdin with
  | nil => rfl
  | cons path rest ih =>
      have hexcluded : (Validator.ofConfig c).config.isExcluded stdinName =
          (Validator.ofConfig d).config.isExcluded stdinName := h.isExcluded_eq stdinName
      have hcollect : FileTree.collect? (Validator.ofConfig c).config path (find? path) =
          FileTree.collect? (Validator.ofConfig d).config path (find? path) :=
        h.collect?_eq path (find? path)
      unfold lintPaths
      rw [hexcluded, hcollect]
      simp only [ih, h.lintSource_eq, h.lintFiles_eq]

end Config

namespace CommandLine

variable {o p : Options}

theorem Options.Alike.refl (o : Options) : o.Alike o := ⟨.refl _, rfl, rfl⟩

/-- Runs with the same values come to the same. -/
theorem Options.Alike.lint_eq (h : o.Alike p) (environment : Environment) :
    lint o environment = lint p environment := by
  have htargets : o.targets = p.targets := by rw [targets, h.paths_eq, targets]
  rw [lint, h.config.lintPaths_eq, h.stdinName_eq, htargets, lint]

end CommandLine

end DocLint
