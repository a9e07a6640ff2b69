import DocLint.Proofs.Grammar.Meaning

/-!
# What statements contribute to their scope

The scanner gathers findings statement by statement.  What a statement contributes depends on the
scope: a function is listed as a function or as a method, or not at all.

* `listFindings_counts`: the counts do not depend on the scope.
* `listFindings_methods`, `listFindings_initializer`: what a class finds in its body.
* `listFindings_uncollected`: elsewhere below the top level there is nothing but counts.
-/

namespace DocLint

open Scanner

namespace BodyCounts

@[simp] theorem empty_add (a : BodyCounts) : ({} : BodyCounts) + a = a := by
  change BodyCounts.add {} a = a
  simp [BodyCounts.add]

end BodyCounts

namespace Findings

variable (a b : Findings)

@[simp] theorem declarations_append : (a ++ b).declarations = a.declarations ++ b.declarations := rfl

@[simp] theorem counts_append : (a ++ b).counts = a.counts + b.counts := rfl

@[simp] theorem initializer_append : (a ++ b).initializer = b.initializer.or a.initializer := rfl

@[simp] theorem faults_append : (a ++ b).faults = a.faults ++ b.faults := rfl

theorem ext {a b : Findings} (hdeclarations : a.declarations = b.declarations)
    (hcounts : a.counts = b.counts) (hinitializer : a.initializer = b.initializer)
    (hfaults : a.faults = b.faults) : a = b := by
  cases a
  cases b
  cases hdeclarations
  cases hcounts
  cases hinitializer
  cases hfaults
  rfl

@[simp] theorem empty_append : ({} : Findings) ++ a = a := by
  apply ext
  · rfl
  · exact BodyCounts.empty_add _
  · exact Option.or_none
  · rfl

@[simp] theorem append_empty : a ++ ({} : Findings) = a := by
  apply ext
  · exact List.append_nil _
  · rfl
  · rfl
  · exact List.append_nil _

theorem append_assoc (a b c : Findings) : a ++ b ++ c = a ++ (b ++ c) := by
  apply Findings.ext
  · exact List.append_assoc _ _ _
  · show BodyCounts.add (BodyCounts.add _ _) _ = BodyCounts.add _ (BodyCounts.add _ _)
    simp only [BodyCounts.add, Nat.add_assoc]
  · exact (Option.or_assoc).symm
  · exact List.append_assoc _ _ _

@[simp] theorem ofFaults_nil : ofFaults [] = {} := rfl

end Findings

/-- What a statement contributes, if it is not a constant at top level. -/
def Statement.findings (context : ScanContext) (scope : Scope) : Statement → Findings
  | .simple line => { counts := countsOf line.contents }
  | .compound line body => { counts := countsOf line.contents + body.counts }
  | .function head suite =>
    { declarations :=
        if scope.collected then
          [if scope.kind = .inClass then head.methodDecl context suite
           else head.functionDecl context suite]
        else []
      initializer :=
        if scope.kind = .inClass then (Statement.function head suite).initializer? context.source
        else none }
  | .classDef head suite =>
    { declarations :=
        if isCollectedClass scope then head.classDecl context suite :: suite.methods context
        else [] }

/-- What statements contribute together. -/
def Statement.listFindings (context : ScanContext) (scope : Scope) : List Statement → Findings
  | [] => {}
  | s :: rest => s.findings context scope ++ Statement.listFindings context scope rest

namespace Statement

variable (context : ScanContext)

theorem findings_counts (scope : Scope) (s : Statement) :
    (s.findings context scope).counts = s.counts := by
  cases s with
  | simple line => rw [findings, counts]
  | compound line body => rw [findings, counts]
  | function head suite => rw [findings, counts]
  | classDef head suite => rw [findings, counts]

theorem findings_faults (scope : Scope) (s : Statement) :
    (s.findings context scope).faults = [] := by
  cases s <;> rfl

/-- The counts do not depend on the scope. -/
theorem listFindings_counts (scope : Scope) (l : List Statement) :
    (listFindings context scope l).counts = listCounts l := by
  induction l with
  | nil => rw [listFindings, listCounts]
  | cons s l ih => rw [listFindings, Findings.counts_append, findings_counts, ih, listCounts]

theorem listFindings_faults (scope : Scope) (l : List Statement) :
    (listFindings context scope l).faults = [] := by
  induction l with
  | nil => rfl
  | cons s l ih => rw [listFindings, Findings.faults_append, findings_faults, ih, List.nil_append]

/-- Where nothing is collected, there is nothing to find but counts and initializers. -/
theorem findings_declarations_uncollected {scope : Scope} (h : scope.collected = false)
    (s : Statement) : (s.findings context scope).declarations = [] := by
  cases s with
  | simple line => rfl
  | compound line body => rfl
  | function head suite => simp [findings, h]
  | classDef head suite => simp [findings, isCollectedClass, h]

theorem findings_initializer (scope : Scope) (s : Statement) :
    (s.findings context scope).initializer =
      if scope.kind = .inClass then s.initializer? context.source else none := by
  cases s <;> simp [findings, initializer?]

/-- Below the top level and outside classes there is nothing but counts. -/
theorem listFindings_uncollected {scope : Scope} (h : scope.collected = false)
    (hkind : scope.kind ≠ .inClass) (l : List Statement) :
    listFindings context scope l = { counts := listCounts l } := by
  apply Findings.ext
  · induction l with
    | nil => rfl
    | cons s l ih =>
        rw [listFindings, Findings.declarations_append,
          findings_declarations_uncollected context h, ih]
        rfl
  · exact listFindings_counts context scope l
  · induction l with
    | nil => rfl
    | cons s l ih =>
        rw [listFindings, Findings.initializer_append, ih, findings_initializer, if_neg hkind]
        rfl
  · exact listFindings_faults context scope l

theorem findings_method (s : Statement) :
    (s.findings context ⟨.inClass, true⟩).declarations = (s.method? context).toList := by
  cases s with
  | simple line => rfl
  | compound line body => rfl
  | function head suite => simp [findings, method?]
  | classDef head suite => simp [findings, method?, isCollectedClass]

/-- A class that is collected finds its methods. -/
theorem listFindings_methods (l : List Statement) :
    (listFindings context ⟨.inClass, true⟩ l).declarations = l.filterMap (method? context) := by
  induction l with
  | nil => rfl
  | cons s l ih =>
      rw [listFindings, Findings.declarations_append, ih, findings_method, List.filterMap_cons]
      cases s.method? context with
      | none => rfl
      | some declaration => rfl

/-- A class finds its last initializer. -/
theorem listFindings_initializer (collected : Bool) (l : List Statement) :
    (listFindings context ⟨.inClass, collected⟩ l).initializer =
      (l.filterMap (initializer? context.source)).getLast? := by
  induction l with
  | nil => rfl
  | cons s l ih =>
      rw [listFindings, Findings.initializer_append, ih, findings_initializer, if_pos rfl,
        List.filterMap_cons]
      cases s.initializer? context.source with
      | none => simp
      | some parameters => cases hlast : (l.filterMap _).getLast? <;> simp [List.getLast?_cons, hlast]

/-- A docstring contributes nothing. -/
theorem findings_docstring {s : Statement} {literal : DocLiteral}
    (h : s.docstring? = some literal) (scope : Scope) : s.findings context scope = {} := by
  cases s with
  | simple line =>
      rw [docstring?, StatementLine.docstring?] at h
      split at h
      next t hcontents =>
        split at h
        next hliteral =>
          simp only [Bool.and_eq_true, beq_iff_eq] at hliteral
          simp [findings, hcontents, countsOf, hliteral.1]
        · cases h
      · cases h
  | compound line body => cases h
  | function head suite => cases h
  | classDef head suite => cases h

end Statement

/-- What a suite contributes to its scope. -/
def Suite.findings (context : ScanContext) (scope : Scope) (suite : Suite) : Findings :=
  Statement.listFindings context scope suite.statements

end DocLint
