import DocLint.Proofs.Lint.Accounting
import DocLint.Proofs.Options.Agreement
import DocLint.Proofs.Text.Edges

/-!
# The order of options

The arguments behind the paths fall into groups, each an option with its values.  A list option takes
everything up to the next option, so every group is read as it stands, whatever is behind it.  What
the groups come to is then the values of every list option, the flags, and the last format and the
last name of the standard input; with one of these at most, the order of the groups does not matter.

* `parse_groups`: the groups are read one after the other.
* `listed_readGroups`, `format_readGroups`, `stdinName_readGroups`: what groups come to.
* `readGroups_perm`, `readGroups_alike`: groups in another order, or with their values in another order
  and number, come to the same.
* `run_rearranged`: so the whole run comes to the same.
-/

namespace DocLint

open Bytes

namespace CommandLine

/-- How a format is written. -/
def formatName : OutputFormat → Bytes
  | .simple => ascii "simple"
  | .full => ascii "full"

/-- An option with its values.  The values of a list option do not look like options, and there is a
value among them even if they are taken apart at commas and the empty parts left out. -/
inductive OptionGroup
  | list (option : ListOption) (values : List Bytes)
      (values_plain : ∀ value ∈ values, isOption value = false)
      (values_ne_nil : valuesOf values ≠ [])
  | includePrivate
  | excludeMagic
  | format (format : OutputFormat)
  | stdinName (name : Bytes)

namespace OptionGroup

/-- The group as it is written. -/
def arguments : OptionGroup → List Bytes
  | list option values _ _ => option.name :: values
  | includePrivate => [ascii "--include-private"]
  | excludeMagic => [ascii "--exclude-magic"]
  | format f => [ascii "--format", formatName f]
  | stdinName name => [ascii "--stdin-filename", name]

/-- The values for a list option, taken apart at commas. -/
def valuesFor (option : ListOption) : OptionGroup → List Bytes
  | list other values _ _ => if other = option then valuesOf values else []
  | _ => []

/-- The group asks for private declarations. -/
def includesPrivate : OptionGroup → Bool
  | includePrivate => true
  | _ => false

/-- The group leaves out declarations whose names have a meaning of their own. -/
def excludesMagic : OptionGroup → Bool
  | excludeMagic => true
  | _ => false

/-- The format that the group chooses. -/
def format? : OptionGroup → Option OutputFormat
  | format f => some f
  | _ => none

/-- The name that the group gives to the standard input. -/
def stdinName? : OptionGroup → Option Bytes
  | stdinName name => some name
  | _ => none

/-- The options with the group added to them. -/
def addTo (o : Options) : OptionGroup → Options
  | list option values _ _ => o.extend option (valuesOf values)
  | includePrivate => { o with config := { o.config with includePrivate := true } }
  | excludeMagic => { o with config := { o.config with excludeMagic := true } }
  | format f => { o with config := { o.config with format := f } }
  | stdinName name => { o with stdinName := name }

/-- The groups are equal, but for the order of the values of a list option, and how often each of
them is given. -/
inductive Alike : OptionGroup → OptionGroup → Prop
  | refl (g : OptionGroup) : Alike g g
  | list {option : ListOption} {values values' : List Bytes} {hplain hplain' hne hne'}
      (h : ∀ value, value ∈ valuesOf values ↔ value ∈ valuesOf values') :
      Alike (.list option values hplain hne) (.list option values' hplain' hne')

end OptionGroup

/-- The options with some groups added to them, one after the other. -/
def readGroups (o : Options) (groups : List OptionGroup) : Options :=
  groups.foldl OptionGroup.addTo o

variable {o p : Options} {groups groups' : List OptionGroup} {rest : List Bytes}

/-! ### Reading groups -/

theorem isOption_name (option : ListOption) : isOption option.name = true := by
  cases option <;> decide

theorem ofName?_name (option : ListOption) : ListOption.ofName? option.name = some option := by
  cases option <;> decide

theorem ne_of_not_isOption {argument : Bytes} (h : isOption argument = false) {name : Bytes}
    (hname : isOption name = true) : argument ≠ name := by
  rintro rfl
  rw [h] at hname
  cases hname

/-- A path is what does not look like an option. -/
theorem parse_path {path : Bytes} (h : isOption path = false) :
    parse o (path :: rest) = parse { o with paths := o.paths ++ [path] } rest := by
  have hne : ∀ name, isOption name = true → path ≠ name := fun name => ne_of_not_isOption h
  have hlist : ListOption.ofName? path = none := by
    refine List.find?_eq_none.2 fun option _ heq => ?_
    exact hne _ (isOption_name option) (eq_of_beq heq).symm
  conv_lhs => rw [parse.eq_def]
  dsimp only
  rw [if_neg (hne _ (by decide)), if_neg (hne _ (by decide)), if_neg (hne _ (by decide)),
    if_neg (hne _ (by decide)), if_neg (hne _ (by decide)), if_neg (hne _ (by decide)),
    if_neg (hne _ (by decide)), hlist]
  dsimp only
  rw [if_neg (by simp [h])]

theorem parse_paths {paths : List Bytes} (h : ∀ path ∈ paths, isOption path = false) :
    parse o (paths ++ rest) = parse { o with paths := o.paths ++ paths } rest := by
  induction paths generalizing o with
  | nil => simp
  | cons path paths ih =>
      rw [List.cons_append, parse_path (h path List.mem_cons_self),
        ih fun p hp => h p (List.mem_cons_of_mem _ hp)]
      simp

/-- A list option takes its values, and stops at the next option. -/
theorem parse_list {option : ListOption} {values : List Bytes}
    (hplain : ∀ value ∈ values, isOption value = false) (hne : valuesOf values ≠ [])
    (hrest : ∀ a ∈ rest.head?, isOption a = true) :
    parse o (option.name :: (values ++ rest)) = parse (o.extend option (valuesOf values)) rest := by
  have hspan : (values ++ rest).takeWhile (fun a => !isOption a) = values ∧
      (values ++ rest).dropWhile (fun a => !isOption a) = rest :=
    span_append (fun a ha => by simp [hplain a ha]) fun a ha => by simp [hrest a ha]
  have hname : ∀ name, ListOption.ofName? name = none → option.name ≠ name := by
    rintro name hnone rfl
    rw [ofName?_name] at hnone
    cases hnone
  conv_lhs => rw [parse.eq_def]
  dsimp only
  rw [if_neg (hname _ (by decide)), if_neg (hname _ (by decide)),
    if_neg (hname _ (by decide)), if_neg (hname _ (by decide)), if_neg (hname _ (by decide)),
    if_neg (hname _ (by decide)), if_neg (hname _ (by decide)), ofName?_name]
  dsimp only
  rw [hspan.1, hspan.2, if_neg (by simpa using hne)]

/-- A group is read as it stands, in front of an option and at the end. -/
theorem parse_group (g : OptionGroup) (hrest : ∀ a ∈ rest.head?, isOption a = true) :
    parse o (g.arguments ++ rest) = parse (g.addTo o) rest := by
  cases g with
  | list option values hplain hne => exact parse_list hplain hne hrest
  | includePrivate =>
      conv_lhs => rw [OptionGroup.arguments, List.singleton_append, parse.eq_def]
      rfl
  | excludeMagic =>
      conv_lhs => rw [OptionGroup.arguments, List.singleton_append, parse.eq_def]
      rfl
  | format f =>
      conv_lhs => rw [OptionGroup.arguments, List.cons_append, List.singleton_append, parse.eq_def]
      cases f <;> rfl
  | stdinName name =>
      conv_lhs => rw [OptionGroup.arguments, List.cons_append, List.singleton_append, parse.eq_def]
      rfl

/-- A group begins with an option. -/
theorem isOption_head?_arguments (groups : List OptionGroup) :
    ∀ a ∈ (groups.flatMap OptionGroup.arguments).head?, isOption a = true := by
  cases groups with
  | nil => exact fun a ha => by cases ha
  | cons g groups =>
      intro a ha
      cases g with
      | list option values hplain hne =>
          cases ha
          exact isOption_name option
      | _ =>
          cases ha
          decide

theorem parse_groups (o : Options) (groups : List OptionGroup) :
    parse o (groups.flatMap OptionGroup.arguments) = .ok (.lint (readGroups o groups)) := by
  induction groups generalizing o with
  | nil => rw [List.flatMap_nil, parse, readGroups, List.foldl_nil]
  | cons g groups ih =>
      rw [List.flatMap_cons, parse_group g (isOption_head?_arguments groups), ih, readGroups,
        readGroups, List.foldl_cons]

/-! ### What groups come to -/

theorem readGroups_cons (o : Options) (g : OptionGroup) (groups : List OptionGroup) :
    readGroups o (g :: groups) = readGroups (g.addTo o) groups := rfl

theorem listed_addTo (option : ListOption) (o : Options) (g : OptionGroup) :
    option.listed (g.addTo o).config = option.listed o.config ++ g.valuesFor option := by
  cases g with
  | list other values hplain hne => cases other <;> cases option <;> simp [OptionGroup.addTo,
      OptionGroup.valuesFor, Options.extend, ListOption.listed]
  | _ => cases option <;> exact (List.append_nil _).symm

/-- The values of all groups of a list option come one after the other. -/
theorem listed_readGroups (option : ListOption) (o : Options) (groups : List OptionGroup) :
    option.listed (readGroups o groups).config =
      option.listed o.config ++ groups.flatMap (OptionGroup.valuesFor option) := by
  induction groups generalizing o with
  | nil => exact (List.append_nil _).symm
  | cons g groups ih => rw [readGroups_cons, ih, listed_addTo, List.flatMap_cons, List.append_assoc]

/-- A flag is set that any of the groups sets. -/
theorem flag_readGroups (flag : Options → Bool) {sets : OptionGroup → Bool}
    (h : ∀ o g, flag (OptionGroup.addTo o g) = (flag o || sets g)) (o : Options)
    (groups : List OptionGroup) : flag (readGroups o groups) = (flag o || groups.any sets) := by
  induction groups generalizing o with
  | nil => exact (Bool.or_false _).symm
  | cons g groups ih => rw [readGroups_cons, ih, h, List.any_cons, Bool.or_assoc]

/-- Of a setting the last choice counts. -/
theorem setting_readGroups {α : Type} (setting : Options → α) {choice? : OptionGroup → Option α}
    (h : ∀ o g, setting (OptionGroup.addTo o g) = (choice? g).getD (setting o)) (o : Options)
    (groups : List OptionGroup) :
    setting (readGroups o groups) = (groups.filterMap choice?).getLastD (setting o) := by
  induction groups generalizing o with
  | nil => rfl
  | cons g groups ih =>
      rw [readGroups_cons, ih, h, List.filterMap_cons]
      cases choice? g with
      | none => rfl
      | some value => exact (List.getLastD_cons ..).symm

theorem includePrivate_addTo (o : Options) (g : OptionGroup) :
    (g.addTo o).config.includePrivate = (o.config.includePrivate || g.includesPrivate) := by
  cases g with
  | list other values hplain hne => cases other <;> exact (Bool.or_false _).symm
  | includePrivate => exact (Bool.or_true _).symm
  | _ => exact (Bool.or_false _).symm

theorem excludeMagic_addTo (o : Options) (g : OptionGroup) :
    (g.addTo o).config.excludeMagic = (o.config.excludeMagic || g.excludesMagic) := by
  cases g with
  | list other values hplain hne => cases other <;> exact (Bool.or_false _).symm
  | excludeMagic => exact (Bool.or_true _).symm
  | _ => exact (Bool.or_false _).symm

theorem format_addTo (o : Options) (g : OptionGroup) :
    (g.addTo o).config.format = g.format?.getD o.config.format := by
  cases g with
  | list other values hplain hne => cases other <;> rfl
  | _ => rfl

theorem stdinName_addTo (o : Options) (g : OptionGroup) :
    (g.addTo o).stdinName = g.stdinName?.getD o.stdinName := by
  cases g <;> rfl

theorem includePrivate_readGroups (o : Options) (groups : List OptionGroup) :
    (readGroups o groups).config.includePrivate =
      (o.config.includePrivate || groups.any OptionGroup.includesPrivate) :=
  flag_readGroups (fun o => o.config.includePrivate) includePrivate_addTo o groups

theorem excludeMagic_readGroups (o : Options) (groups : List OptionGroup) :
    (readGroups o groups).config.excludeMagic =
      (o.config.excludeMagic || groups.any OptionGroup.excludesMagic) :=
  flag_readGroups (fun o => o.config.excludeMagic) excludeMagic_addTo o groups

theorem format_readGroups (o : Options) (groups : List OptionGroup) :
    (readGroups o groups).config.format =
      (groups.filterMap OptionGroup.format?).getLastD o.config.format :=
  setting_readGroups (fun o => o.config.format) format_addTo o groups

theorem stdinName_readGroups (o : Options) (groups : List OptionGroup) :
    (readGroups o groups).stdinName =
      (groups.filterMap OptionGroup.stdinName?).getLastD o.stdinName :=
  setting_readGroups Options.stdinName stdinName_addTo o groups

theorem paths_addTo (o : Options) (g : OptionGroup) : (g.addTo o).paths = o.paths := by
  cases g <;> rfl

theorem paths_readGroups (o : Options) (groups : List OptionGroup) :
    (readGroups o groups).paths = o.paths := by
  induction groups generalizing o with
  | nil => rfl
  | cons g groups ih => rw [readGroups_cons, ih, paths_addTo]

/-! ### Groups in another order -/

/-- There is one order of a list that is not longer than one element. -/
theorem eq_of_perm_of_length_le_one {α : Type} {xs ys : List α} (h : xs.Perm ys)
    (hlength : xs.length ≤ 1) : xs = ys := by
  match xs, hlength with
  | [], _ => exact (List.nil_perm.1 h).symm
  | [x], _ => exact List.singleton_perm.1 h

/-- Groups in another order come to the same, if the format and the name of the standard input are
each given once at most. -/
theorem readGroups_perm (h : groups.Perm groups')
    (hformat : (groups.filterMap OptionGroup.format?).length ≤ 1)
    (hstdin : (groups.filterMap OptionGroup.stdinName?).length ≤ 1) (o : Options) :
    (readGroups o groups).Alike (readGroups o groups') where
  config := {
    listed_iff := fun option value => by
      have hvalues := (h.flatMap_right (OptionGroup.valuesFor option)).mem_iff (a := value)
      rw [listed_readGroups, listed_readGroups, List.mem_append, List.mem_append, hvalues]
    includePrivate_eq := by
      rw [includePrivate_readGroups, includePrivate_readGroups, h.any_eq]
    excludeMagic_eq := by rw [excludeMagic_readGroups, excludeMagic_readGroups, h.any_eq]
    format_eq := by
      rw [format_readGroups, format_readGroups,
        eq_of_perm_of_length_le_one (h.filterMap _) hformat] }
  paths_eq := by rw [paths_readGroups, paths_readGroups]
  stdinName_eq := by
    rw [stdinName_readGroups, stdinName_readGroups,
      eq_of_perm_of_length_le_one (h.filterMap _) hstdin]

/-! ### Values in another order -/

/-- Values that are given in another order or number have the same parts. -/
theorem mem_valuesOf_congr {values values' : List Bytes}
    (h : ∀ value, value ∈ values ↔ value ∈ values') (part : Bytes) :
    part ∈ valuesOf values ↔ part ∈ valuesOf values' := by
  simp only [valuesOf, List.mem_filter, List.mem_flatMap, h]

/-- Groups that are alike do the same to options that are alike. -/
theorem addTo_alike (ho : o.Alike p) {g g' : OptionGroup} (h : g.Alike g') :
    (g.addTo o).Alike (g'.addTo p) where
  config := {
    listed_iff := fun option value => by
      rw [listed_addTo, listed_addTo, List.mem_append, List.mem_append,
        ho.config.listed_iff option value]
      refine or_congr_right ?_
      cases h with
      | refl => exact Iff.rfl
      | list h =>
          simp only [OptionGroup.valuesFor]
          split
          · exact h value
          · exact Iff.rfl
    includePrivate_eq := by
      rw [includePrivate_addTo, includePrivate_addTo, ho.config.includePrivate_eq]
      cases h <;> rfl
    excludeMagic_eq := by
      rw [excludeMagic_addTo, excludeMagic_addTo, ho.config.excludeMagic_eq]
      cases h <;> rfl
    format_eq := by
      rw [format_addTo, format_addTo, ho.config.format_eq]
      cases h <;> rfl }
  paths_eq := by
    rw [paths_addTo, paths_addTo, ho.paths_eq]
  stdinName_eq := by
    rw [stdinName_addTo, stdinName_addTo, ho.stdinName_eq]
    cases h <;> rfl

theorem readGroups_alike (ho : o.Alike p) (h : List.Forall₂ OptionGroup.Alike groups groups') :
    (readGroups o groups).Alike (readGroups p groups') := by
  induction h generalizing o p with
  | nil => exact ho
  | cons hfirst _ ih => exact ih (addTo_alike ho hfirst)

/-! ### Runs -/

/-- Paths in front of groups are read, and then the groups. -/
theorem run_groups {paths : List Bytes} (hpaths : ∀ path ∈ paths, isOption path = false)
    (groups : List OptionGroup) (environment : Environment) :
    run (paths ++ groups.flatMap OptionGroup.arguments) environment =
      lint (readGroups { paths } groups) environment := by
  have hparse := parse_groups { paths } groups
  rw [run, parse_paths hpaths, List.nil_append, hparse]

/-- The order of the options behind the paths does not matter, nor does the order of the values of a
list option, nor how often a value is given: the exit code and both texts stay the same.  The format
and the name of the standard input may each be given once. -/
theorem run_rearranged {paths : List Bytes} (hpaths : ∀ path ∈ paths, isOption path = false)
    {groups moved rearranged : List OptionGroup}
    (hformat : (groups.filterMap OptionGroup.format?).length ≤ 1)
    (hstdin : (groups.filterMap OptionGroup.stdinName?).length ≤ 1)
    (hmoved : groups.Perm moved) (hvalues : List.Forall₂ OptionGroup.Alike moved rearranged)
    (environment : Environment) :
    run (paths ++ groups.flatMap OptionGroup.arguments) environment =
      run (paths ++ rearranged.flatMap OptionGroup.arguments) environment := by
  rw [run_groups hpaths, run_groups hpaths]
  calc lint (readGroups { paths } groups) environment
    _ = lint (readGroups { paths } moved) environment :=
        (readGroups_perm hmoved hformat hstdin _).lint_eq environment
    _ = lint (readGroups { paths } rearranged) environment :=
        (readGroups_alike (.refl _) hvalues).lint_eq environment

/-- The standard input, and a directory. -/
def samplePaths : List Bytes := [ascii "-", ascii "lib"]

/-- Codes that are ignored, in two values. -/
def ignoredCodes : OptionGroup := .list .ignore [ascii "SS", ascii "GL08,PR"] (by decide) (by decide)

/-- The same values in another order, one of them given twice. -/
def repeatedCodes : OptionGroup :=
  .list .ignore [ascii "GL08,PR", ascii "SS", ascii "GL08,PR"] (by decide) (by decide)

/-- Options; the name of the standard input looks like one itself. -/
def sampleGroups : List OptionGroup :=
  [ignoredCodes, .excludeMagic] ++ [.format .full, .stdinName (ascii "--format")]

/-- The options in another order. -/
def movedGroups : List OptionGroup :=
  [.format .full, .stdinName (ascii "--format")] ++ [ignoredCodes, .excludeMagic]

/-- The options in that order, with the codes in another order and one of them given twice. -/
def rearrangedGroups : List OptionGroup :=
  [.format .full, .stdinName (ascii "--format"), repeatedCodes, .excludeMagic]

theorem alike_repeatedCodes : ignoredCodes.Alike repeatedCodes :=
  .list (mem_valuesOf_congr fun value => by simp only [List.mem_cons]; tauto)

theorem rearrangedGroups_alike : List.Forall₂ OptionGroup.Alike movedGroups rearrangedGroups :=
  .cons (.refl _) (.cons (.refl _) (.cons alike_repeatedCodes (.cons (.refl _) .nil)))

theorem run_rearranged_sampleGroups :
    (∀ path ∈ samplePaths, isOption path = false) ∧
      (sampleGroups.filterMap OptionGroup.format?).length ≤ 1 ∧
      (sampleGroups.filterMap OptionGroup.stdinName?).length ≤ 1 ∧
      sampleGroups.Perm movedGroups ∧
      List.Forall₂ OptionGroup.Alike movedGroups rearrangedGroups ∧
      run (samplePaths ++ sampleGroups.flatMap OptionGroup.arguments) sampleEnvironment =
        run (samplePaths ++ rearrangedGroups.flatMap OptionGroup.arguments) sampleEnvironment := by
  have hpaths : ∀ path ∈ samplePaths, isOption path = false := by decide
  have hformat : (sampleGroups.filterMap OptionGroup.format?).length ≤ 1 := by decide
  have hstdin : (sampleGroups.filterMap OptionGroup.stdinName?).length ≤ 1 := by decide
  have hmoved : sampleGroups.Perm movedGroups := List.perm_append_comm
  exact ⟨hpaths, hformat, hstdin, hmoved, rearrangedGroups_alike,
    run_rearranged hpaths hformat hstdin hmoved rearrangedGroups_alike sampleEnvironment⟩

end CommandLine

end DocLint
