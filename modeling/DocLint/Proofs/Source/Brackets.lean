import DocLint.Source.Lexer

/-!
# Balanced brackets

Brackets are counted without regard to their shapes, as the lexer and the scanner do.

* `isBalanced`: no bracket is closed that has not been opened, and none is left open.
* `depthAfter_cast`: as long as that is so, the depth does not saturate.
-/

namespace DocLint

/-- The kinds close every bracket that they find open or open themselves, and no other; outside
brackets there are only the allowed kinds. -/
def isBalanced (allowed : TokenKind → Bool) : Nat → List TokenKind → Bool
  | depth, [] => depth == 0
  | depth, kind :: rest =>
    (!kind.isClosing || decide (0 < depth)) && (decide (0 < depth) || allowed kind) &&
      isBalanced allowed (Lexer.depthAfter depth kind) rest

/-- The bracket depth changes as the nesting says, unless there is no bracket to close. -/
theorem depthAfter_cast {depth : Nat} {kind : TokenKind}
    (h : kind.isClosing = true → 0 < depth) :
    (Lexer.depthAfter depth kind : Int) = depth + kind.nesting := by
  unfold Lexer.depthAfter TokenKind.nesting
  split
  · omega
  · split
    next hclosing =>
      have := h hclosing
      omega
    · omega

variable {allowed : TokenKind → Bool} {depth : Nat} {kind : TokenKind} {rest : List TokenKind}

theorem isBalanced_cons (h : isBalanced allowed depth (kind :: rest) = true) :
    (kind.isClosing = true → 0 < depth) ∧ (depth = 0 → allowed kind = true) ∧
      isBalanced allowed (Lexer.depthAfter depth kind) rest = true := by
  simp only [isBalanced, Bool.and_eq_true, Bool.or_eq_true, Bool.not_eq_true',
    decide_eq_true_eq] at h
  obtain ⟨⟨hclosing, hallowed⟩, hrest⟩ := h
  refine ⟨fun hkind => ?_, fun hzero => ?_, hrest⟩
  · rcases hclosing with hopen | hpos
    · rw [hopen] at hkind
      cases hkind
    · exact hpos
  · rcases hallowed with hpos | hkind
    · omega
    · exact hkind

end DocLint
