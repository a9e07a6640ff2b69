import DocLint.Proofs.Check.Discipline
import Mathlib.Data.List.Forall2

/-!
# Restated findings

Two runs of a check may come to the same findings at different places: one by one, the second ones
carry the codes and the messages of the first ones.

* `Check.Restates`: the judgment, closed under the ways in which the checks are put together.
* `restates_mapM`, `restates_map`: findings about the elements of two lists that correspond.
-/

namespace DocLint

/-- The second finding says what the first one says, but for the suggestion, of a place that
corresponds to the place of the first one. -/
structure Diagnostic.Restates (R : Span → Span → Prop) (f f' : Diagnostic) : Prop where
  severity : f'.severity = f.severity
  code : f'.code = f.code
  span : R f.span f'.span
  message : f'.message = f.message
  terminates : f'.terminates = f.terminates

namespace Check

/-- Both checks come to findings, and those of the second one restate those of the first one, one by
one. -/
def Restates (R : Span → Span → Prop) (result result' : CheckResult) : Prop :=
  ∃ found found', result = .ok found ∧ result' = .ok found' ∧
    List.Forall₂ (Diagnostic.Restates R) found found'

section Closure

variable {R : Span → Span → Prop} {code : Code}

theorem restates_silent : Restates R silent silent := ⟨[], [], rfl, rfl, .nil⟩

/-- The same finding at the corresponding place. -/
theorem restates_one {arguments : List (Bytes × Bytes)}
    (covered : (code.template.fields.all fun name => (arguments.lookup name).isSome) = true)
    {span span' : Span} (h : R span span') (suggestion suggestion' : Option Bytes) :
    Restates R (one (code.report span suggestion arguments))
      (one (code.report span' suggestion' arguments)) := by
  rw [report_eq_ok covered, report_eq_ok covered]
  exact ⟨_, _, rfl, rfl, .cons ⟨rfl, rfl, h, rfl, rfl⟩ .nil⟩

/-- The same findings about the corresponding elements of two lists. -/
theorem restates_mapM {α β : Type} {S : α → β → Prop} {f : α → Except Failure Diagnostic}
    {f' : β → Except Failure Diagnostic} {xs : List α} {ys : List β} (hxs : List.Forall₂ S xs ys)
    (h : ∀ x y, S x y → Restates R (one (f x)) (one (f' y))) :
    Restates R (xs.mapM f) (ys.mapM f') := by
  induction hxs with
  | nil => exact restates_silent
  | @cons x y xs ys hxy _ ih =>
      obtain ⟨found, found', hone, hone', hfirst⟩ := h x y hxy
      obtain ⟨more, more', hmore, hmore', hrest⟩ := ih
      cases hf : f x with
      | error e => rw [hf] at hone; cases hone
      | ok d =>
          cases hf' : f' y with
          | error e => rw [hf'] at hone'; cases hone'
          | ok d' =>
              rw [hf] at hone
              rw [hf'] at hone'
              cases hone
              cases hone'
              refine ⟨d :: more, d' :: more', ?_, ?_, .cons (List.forall₂_cons.1 hfirst).1 hrest⟩
              · rw [List.mapM_cons, hf, hmore]
                rfl
              · rw [List.mapM_cons, hf', hmore']
                rfl

/-- The same findings about the images of the elements of a list. -/
theorem restates_map {α β : Type} {f : α → Except Failure Diagnostic}
    {f' : β → Except Failure Diagnostic} {xs : List α} {ys : List β} (move : α → β)
    (hys : ys = xs.map move) (h : ∀ x ∈ xs, Restates R (one (f x)) (one (f' (move x)))) :
    Restates R (xs.mapM f) (ys.mapM f') := by
  have hxs : List.Forall₂ (fun x y => x ∈ xs ∧ y = move x) xs ys := by
    rw [hys, List.forall₂_map_right_iff, List.forall₂_same]
    exact fun x hx => ⟨hx, rfl⟩
  refine restates_mapM hxs fun x y hxy => ?_
  rw [hxy.2]
  exact h x hxy.1

theorem restates_ofParameters {d : Declaration} {result result' : CheckResult}
    (h : Restates R result result') :
    Restates R (ofParameters d result) (ofParameters d result') := by
  unfold ofParameters
  split
  · exact h
  · exact restates_silent

theorem restates_ofCallable {d : Declaration} {result result' : CheckResult}
    (h : Restates R result result') : Restates R (ofCallable d result) (ofCallable d result') := by
  unfold ofCallable
  split
  · exact h
  · exact restates_silent

end Closure

end Check

end DocLint
