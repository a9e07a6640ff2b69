import DocLint.Lint.Config
import DocLint.Proofs.Text.Lines

/-!
# Excluded paths

A path is excluded by a run of its components that matches a pattern.  The runs are looked for in the
text of the path, between its slashes, and what excludes a directory excludes everything below it.

* `mem_tails_iff`, `mem_heads_iff`: the texts between slashes, as runs of components.
* `isExcluded_iff`: exclusion, as a statement about components.
* `isExcluded_append`: a path below an excluded one is excluded.
-/

namespace DocLint

open Bytes

/-- Some components in a row, at least one, with slashes between them. -/
def IsComponentRun (run path : Bytes) : Prop :=
  ∃ components, components ≠ [] ∧ components <:+: splitOn Glob.slash path ∧
    run = join [Glob.slash] components

namespace Glob

/-- What follows a slash. -/
theorem mem_componentSuffixes_iff {path tail : Bytes} :
    tail ∈ componentSuffixes path ↔ ∃ front, path = front ++ slash :: tail := by
  induction path with
  | nil => simp [componentSuffixes]
  | cons c r ih =>
      have hfirst : (∃ front, c :: r = front ++ slash :: tail) ↔
          (c = slash ∧ r = tail) ∨ ∃ front, r = front ++ slash :: tail := by
        constructor
        · rintro ⟨front, hfront⟩
          cases front with
          | nil => exact .inl (List.cons.inj hfront)
          | cons d front => exact .inr ⟨front, (List.cons.inj hfront).2⟩
        · rintro (⟨rfl, rfl⟩ | ⟨front, rfl⟩)
          · exact ⟨[], rfl⟩
          · exact ⟨c :: front, rfl⟩
      rw [hfirst, ← ih, componentSuffixes]
      split
      next hc => simp [hc, eq_comm]
      next hc => simp [hc]

end Glob

namespace Config

/-- What stands in front of a slash. -/
theorem mem_heads_of_slash {path head : Bytes} :
    head ∈ heads path ↔ ∃ behind, path = head ++ Glob.slash :: behind := by
  induction path generalizing head with
  | nil => simp [heads]
  | cons c r ih =>
      have hlonger : head ∈ (heads r).map (c :: ·) ↔
          ∃ rest behind, head = c :: rest ∧ r = rest ++ Glob.slash :: behind := by
        simp only [List.mem_map, ih]
        constructor
        · rintro ⟨rest, ⟨behind, hr⟩, rfl⟩
          exact ⟨rest, behind, rfl, hr⟩
        · rintro ⟨rest, behind, rfl, hr⟩
          exact ⟨rest, ⟨behind, hr⟩, rfl⟩
      have hsplit : (∃ behind, c :: r = head ++ Glob.slash :: behind) ↔
          (c = Glob.slash ∧ head = []) ∨ head ∈ (heads r).map (c :: ·) := by
        rw [hlonger]
        constructor
        · rintro ⟨behind, hbehind⟩
          cases head with
          | nil => exact .inl ⟨(List.cons.inj hbehind).1, rfl⟩
          | cons d rest =>
              obtain ⟨rfl, hr⟩ := List.cons.inj hbehind
              exact .inr ⟨rest, behind, rfl, hr⟩
        · rintro (⟨rfl, rfl⟩ | ⟨rest, behind, rfl, rfl⟩)
          · exact ⟨r, rfl⟩
          · exact ⟨behind, rfl⟩
      rw [hsplit, heads]
      split
      next hc => simp [hc]
      next hc => simp [hc]

/-- The tails of a path are made of its last components. -/
theorem mem_tails_iff {path tail : Bytes} :
    tail ∈ tails path ↔ splitOn Glob.slash tail <:+ splitOn Glob.slash path := by
  rw [tails, List.mem_cons, Glob.mem_componentSuffixes_iff]
  constructor
  · rintro (rfl | ⟨front, rfl⟩)
    · exact List.suffix_refl _
    · rw [splitOn_append_cons]
      exact List.suffix_append _ _
  · rintro ⟨before, hsplit⟩
    have hpath := join_splitOn Glob.slash path
    rw [← hsplit] at hpath
    by_cases hbefore : before = []
    · rw [hbefore, List.nil_append, join_splitOn] at hpath
      exact .inl hpath
    · rw [join_append _ hbefore (splitOn_ne_nil _ _), join_splitOn] at hpath
      exact .inr ⟨_, hpath.symm⟩

/-- A path and its heads are made of its first components. -/
theorem mem_heads_iff {path head : Bytes} :
    head = path ∨ head ∈ heads path ↔ splitOn Glob.slash head <+: splitOn Glob.slash path := by
  rw [mem_heads_of_slash]
  constructor
  · rintro (rfl | ⟨behind, rfl⟩)
    · exact List.prefix_refl _
    · rw [splitOn_append_cons]
      exact List.prefix_append _ _
  · rintro ⟨behind, hsplit⟩
    have hpath := join_splitOn Glob.slash path
    rw [← hsplit] at hpath
    by_cases hbehind : behind = []
    · rw [hbehind, List.append_nil, join_splitOn] at hpath
      exact .inl hpath
    · rw [join_append _ (splitOn_ne_nil _ _) hbehind, join_splitOn] at hpath
      exact .inr ⟨_, hpath.symm⟩

/-- A text is a run of components of a path if its own components are one. -/
theorem isComponentRun_iff {run path : Bytes} :
    IsComponentRun run path ↔ splitOn Glob.slash run <:+: splitOn Glob.slash path := by
  constructor
  · rintro ⟨components, hne, hstretch, rfl⟩
    have hslash : ∀ component ∈ components, Glob.slash ∉ component := fun component hmem =>
      not_mem_of_mem_splitOn (hstretch.subset hmem)
    rwa [splitOn_join hne hslash]
  · intro hstretch
    exact ⟨_, splitOn_ne_nil _ _, hstretch, (join_splitOn _ _).symm⟩

/-- The heads of the tails of a path are its runs of components. -/
theorem exists_mem_tails_iff {run path : Bytes} :
    (∃ tail ∈ tails path, run = tail ∨ run ∈ heads tail) ↔ IsComponentRun run path := by
  rw [isComponentRun_iff]
  constructor
  · rintro ⟨tail, htail, hrun⟩
    exact (mem_heads_iff.1 hrun).isInfix.trans (mem_tails_iff.1 htail).isInfix
  · intro hstretch
    obtain ⟨pieces, hprefix, hsuffix⟩ := List.infix_iff_prefix_suffix.1 hstretch
    have hne : pieces ≠ [] := fun hnil =>
      splitOn_ne_nil Glob.slash run (List.prefix_nil.1 (hnil ▸ hprefix))
    have hpieces : splitOn Glob.slash (join [Glob.slash] pieces) = pieces :=
      splitOn_join hne fun piece hmem => not_mem_of_mem_splitOn (hsuffix.subset hmem)
    refine ⟨join [Glob.slash] pieces, mem_tails_iff.2 ?_, mem_heads_iff.2 ?_⟩
    · rwa [hpieces]
    · rwa [hpieces]

/-- A path is excluded if some pattern matches some run of its components. -/
theorem isExcluded_iff (c : Config) (path : Bytes) :
    c.isExcluded path = true ↔ ∃ pattern ∈ c.exclude, ∃ run,
      IsComponentRun run (normalizePath path) ∧ Glob.isMatch pattern run = true := by
  have htail (pattern tail : Bytes) :
      (Glob.isMatch pattern tail || (heads tail).any fun head => Glob.isMatch pattern head) = true ↔
        ∃ run, (run = tail ∨ run ∈ heads tail) ∧ Glob.isMatch pattern run = true := by
    rw [Bool.or_eq_true, List.any_eq_true]
    constructor
    · rintro (hmatch | ⟨head, hhead, hmatch⟩)
      · exact ⟨tail, .inl rfl, hmatch⟩
      · exact ⟨head, .inr hhead, hmatch⟩
    · rintro ⟨run, rfl | hhead, hmatch⟩
      · exact .inl hmatch
      · exact .inr ⟨run, hhead, hmatch⟩
  simp only [isExcluded, List.any_eq_true, htail, ← exists_mem_tails_iff]
  constructor
  · rintro ⟨pattern, hpattern, tail, hmem, run, hrun, hmatch⟩
    exact ⟨pattern, hpattern, run, ⟨tail, hmem, hrun⟩, hmatch⟩
  · rintro ⟨pattern, hpattern, run, ⟨tail, hmem, hrun⟩, hmatch⟩
    exact ⟨pattern, hpattern, tail, hmem, run, hrun, hmatch⟩

/-! ### Below an excluded path -/

/-- What follows a slash is out of the reach of what is left out in front, unless nothing but `.`
stands before it. -/
theorem dropCurrent_append_slash {d : Bytes} (h : dropCurrent d ≠ ascii ".") (r : Bytes) :
    dropCurrent (d ++ Glob.slash :: r) = dropCurrent d ++ Glob.slash :: r := by
  fun_induction dropCurrent d with
  | case1 c d rest hcurrent ih =>
      rw [List.cons_append, List.cons_append, dropCurrent, if_pos hcurrent]
      exact ih h
  | case2 c d rest hother => rw [List.cons_append, List.cons_append, dropCurrent, if_neg hother]
  | case3 s hshort =>
      match s with
      | [] =>
          rw [List.nil_append]
          cases r with
          | nil => rfl
          | cons e r =>
              have hslash : ¬(Glob.slash = byte '.' ∧ e = Glob.slash) := fun hc =>
                absurd hc.1 (by decide)
              rw [dropCurrent, if_neg hslash]
      | [c] =>
          have hc : ¬(c = byte '.' ∧ Glob.slash = Glob.slash) := fun hc => h (by rw [hc.1]; rfl)
          rw [List.singleton_append, dropCurrent, if_neg hc]
      | c :: d :: rest => exact absurd rfl (hshort c d rest)

theorem normalizePath_append_slash {d : Bytes} (h : normalizePath d ≠ ascii ".") (r : Bytes) :
    ∃ behind, normalizePath (d ++ Glob.slash :: r) = normalizePath d ++ Glob.slash :: behind := by
  refine ⟨r.map fun c => if c = backslash then Glob.slash else c, ?_⟩
  have hslash : (if Glob.slash = backslash then Glob.slash else Glob.slash) = Glob.slash := rfl
  rw [normalizePath, List.map_append, List.map_cons, hslash]
  exact dropCurrent_append_slash h _

/-- A path below an excluded one is excluded. -/
theorem isExcluded_append {c : Config} {d : Bytes} (hnormal : normalizePath d ≠ ascii ".")
    (h : c.isExcluded d = true) (r : Bytes) : c.isExcluded (d ++ Glob.slash :: r) = true := by
  obtain ⟨pattern, hpattern, run, ⟨components, hne, hstretch, hrun⟩, hmatch⟩ :=
    (c.isExcluded_iff d).1 h
  obtain ⟨behind, hbehind⟩ := normalizePath_append_slash hnormal r
  refine (c.isExcluded_iff _).2 ⟨pattern, hpattern, run, ⟨components, hne, ?_, hrun⟩, hmatch⟩
  rw [hbehind, splitOn_append_cons]
  exact hstretch.trans (List.prefix_append _ _).isInfix

/-- Leaving out `./` in front leaves out components. -/
theorem splitOn_dropCurrent_suffix (path : Bytes) :
    splitOn Glob.slash (dropCurrent path) <:+ splitOn Glob.slash path := by
  fun_induction dropCurrent path with
  | case1 c d rest hcurrent ih =>
      obtain ⟨rfl, rfl⟩ := hcurrent
      have hsplit := splitOn_append_cons Glob.slash (ascii ".") rest
      exact ih.trans ⟨_, hsplit.symm⟩
  | case2 => exact List.suffix_refl _
  | case3 => exact List.suffix_refl _

end Config

end DocLint
