import DocLint.Proofs.Check.Retold
import DocLint.Proofs.Reindentation.Descriptions

/-!
# Checks of reindented docstrings

Every check comes to the same findings about a reindented docstring, but for the suggestions, which
may name lines and columns.  What it finds in the docstring has moved with it; what it finds at the
declaration stays where it is.

* `Follows`: the judgment, which findings restated at moved places satisfy.
* `reindentation`, `lawful_reindentation`: moving a docstring and indenting its lines leaves alone
  what rules ask of it.
-/

namespace DocLint

open Bytes

/-- The finding without its suggestion. -/
def Diagnostic.plain (f : Diagnostic) : Diagnostic := { f with suggestion := none }

/-- The finding at the moved place. -/
def Diagnostic.shift (n k : Nat) (f : Diagnostic) : Diagnostic :=
  { f with span := f.span.shift n k }

namespace Check

/-- Both checks come to findings, and but for the suggestions the second ones are the first ones
with their spans moved by `g`. -/
def Follows (g : Span → Span) (result result' : CheckResult) : Prop :=
  ∃ found found', result = .ok found ∧ result' = .ok found' ∧
    found'.map Diagnostic.plain = found.map fun f => Diagnostic.plain { f with span := g f.span }

/-- Findings that are restated at moved places are the old ones with their spans moved. -/
theorem Restates.follows {g : Span → Span} {R : Span → Span → Prop} {result result' : CheckResult}
    (h : Restates R result result') (hR : ∀ s s', R s s' → s' = g s) :
    Follows g result result' := by
  obtain ⟨found, found', hfound, hfound', hrestates⟩ := h
  refine ⟨found, found', hfound, hfound', ?_⟩
  rw [← List.forall₂_eq_eq_eq, List.forall₂_map_left_iff, List.forall₂_map_right_iff]
  refine (hrestates.imp fun f f' hf => ?_).flip
  show f'.plain = Diagnostic.plain { f with span := g f.span }
  simp only [Diagnostic.plain, hf.severity, hf.code, hR _ _ hf.span, hf.message, hf.terminates]

end Check

/-! ### Moved and indented -/

/-- What becomes of a docstring that moves, its lines indented with it. -/
def reindentation (n k : Nat) : Retelling where
  onLine := DocLine.reindent n k
  margin := DocLine.gained k
  onDescription := DocLine.indented n k
  onEntry := ParameterEntry.shift n k
  onSection := DocSection.reindent n k
  onPosition := Position.shift n k

theorem lawful_reindentation (n k : Nat) :
    (reindentation n k).Lawful fun p q => q = p.shift n k where
  position := fun p => rfl
  right := fun p q hpq j => by rw [hpq, Position.right_shift]
  column := fun line j => DocLine.column_reindent n k j line
  stop := fun line => DocLine.stop_reindent n k line
  content := DocLine.keepsContent_reindent n k
  leading := fun line _ => DocLine.leading_push line
  tabs := Check.tabSpan?_reindent n k
  deprecations := Check.deprecations_reindent n k
  directive := fun line => Check.bareDirective?_spaces_append (line.gained k) line.text
  sectionName := fun _ => rfl
  parameters := DocSection.parameters_reindent n k
  entryName := fun _ => rfl
  entryTypes := fun _ => rfl
  optionalCount := fun _ => rfl
  description := fun _ => rfl
  descriptions := DocLine.keepsDescriptions_indented n k
  header := fun entry => ⟨rfl, DocLine.stop_shift n k entry.header⟩
  tightColons := fun entry => List.forall₂_same.2 fun found _ =>
    ⟨DocLine.column_shift n k found.1 entry.header, DocLine.column_shift n k found.2 entry.header⟩

end DocLint
