import DocLint.Source.Lexer
import Mathlib.Data.List.Forall2

/-!
# Two lexers in step

Two lexers that go on in step, each item of the one like the item of the other, run in step.  What
they have in common is left open.

* `run_related`: from one step to the whole run.
* `skip_eq`: skipping a text moves the cursor behind it.
-/

namespace DocLint

namespace Lexer

/-- Lexers whose steps are alike run alike.  The items of the first run may be known to satisfy `P`. -/
theorem run_related {R : Lexer → Lexer → Prop} {P : LexItem → Prop} {Q : LexItem → LexItem → Prop}
    (finished_eq : ∀ l l', R l l' → l'.finished = l.finished)
    (step_related : ∀ l l', R l l' → l.finished = false → (∀ item ∈ l.step.1, P item) →
      List.Forall₂ Q l.step.1 l'.step.1 ∧ R l.step.2 l'.step.2)
    {l l' : Lexer} (related : R l l') (items : ∀ item ∈ l.run.1, P item) :
    List.Forall₂ Q l.run.1 l'.run.1 := by
  induction l using run.induct generalizing l' with
  | case1 l hfinished =>
      rw [run, if_pos hfinished, run, if_pos ((finished_eq l l' related).trans hfinished)]
      exact .nil
  | case2 l hrunning ih =>
      rw [run, if_neg hrunning] at items ⊢
      have hrunning' : ¬ l'.finished = true := (finished_eq l l' related).symm ▸ hrunning
      obtain ⟨hstep, hnext⟩ := step_related l l' related (eq_false_of_ne_true hrunning)
        fun item h => items item (List.mem_append_left _ h)
      rw [run.eq_1 l', if_neg hrunning']
      exact List.rel_append hstep (ih hnext fun item h => items item (List.mem_append_right _ h))

end Lexer

namespace ByteCursor

/-- A line that was blank so far is blank still, after some bytes. -/
def blankAfter (blankLine : Bool) (s : Bytes) : Bool :=
  s.foldl (fun blank c => c == newline || (blank && isIndentation c)) blankLine

/-- The place behind a text, in front of `r`. -/
def pass (cursor : ByteCursor) (s r : Bytes) : ByteCursor where
  rest := r
  position := cursor.position.after s
  offset := cursor.offset + s.length
  blankLine := blankAfter cursor.blankLine s

/-- Skipping a text moves the cursor behind it. -/
theorem skip_eq {cursor : ByteCursor} {s r : Bytes} (h : cursor.rest = s ++ r) :
    cursor.skip s.length = cursor.pass s r := by
  induction s generalizing cursor with
  | nil =>
      rw [List.nil_append] at h
      rw [← h]
      rfl
  | cons c s ih =>
      rw [List.length_cons, skip, h]
      show skip s.length (cursor.step c (s ++ r)) = _
      rw [ih rfl, pass, pass, step, List.length_cons, Nat.add_assoc, Nat.add_comm 1]
      rfl

end ByteCursor

end DocLint
