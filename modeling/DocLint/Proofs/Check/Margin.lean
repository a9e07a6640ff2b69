import DocLint.Check.Registry
import DocLint.Proofs.Text.Edges

/-!
# Behind a margin

Spaces in front of a line do not hide a directive, nor do they make one: it is found as far to the
right as the line is indented.

* `hasVersionDirective_of_text`: version directives behind a margin.
* `bareDirective?_spaces_append`: directives without colons behind a margin.
-/

namespace DocLint

open Bytes

/-- What begins with a period occurs behind spaces where it occurs without them. -/
theorem includes_spaces_append {t r : Bytes} (ht : t = byte '.' :: r) (m : Nat) (s : Bytes) :
    includes (spaces m ++ s) t = includes s t := by
  rw [includes, offsetOf?_spaces_append ht (by decide), Option.isSome_map, includes]

theorem exists_eq_cons_of_mem_versionDirectives {directive : Bytes}
    (h : directive ∈ versionDirectives) : ∃ r, directive = byte '.' :: r := by
  simp only [versionDirectives, List.mem_cons, List.not_mem_nil, or_false] at h
  rcases h with rfl | rfl | rfl
  · exact ⟨_, rfl⟩
  · exact ⟨_, rfl⟩
  · exact ⟨_, rfl⟩

/-- A version directive is found behind spaces. -/
theorem DocLine.hasVersionDirective_of_text {line : DocLine} {m : Nat} {s : Bytes}
    (h : line.text = spaces m ++ s) :
    line.hasVersionDirective = versionDirectives.any fun directive => includes s directive := by
  rw [hasVersionDirective, h, Bool.eq_iff_iff, List.any_eq_true, List.any_eq_true]
  refine exists_congr fun directive => and_congr_right fun hdirective => ?_
  obtain ⟨r, hr⟩ := exists_eq_cons_of_mem_versionDirectives hdirective
  rw [includes_spaces_append hr]

namespace Check

/-- The name of a directive without colons stands behind the spaces. -/
theorem bareDirective?_spaces_append (m : Nat) (s : Bytes) :
    bareDirective? (spaces m ++ s) = (bareDirective? s).map fun (j, name) => (m + j, name) := by
  unfold bareDirective?
  rw [stripStart_spaces_append, leading_spaces_append]
  dsimp only
  split
  · split
    · rfl
    · split
      · rfl
      · rfl
  · rfl

/-- The marker of a deprecation begins with a period. -/
theorem deprecationMarker_eq_cons : ∃ r, deprecationMarker = byte '.' :: r := ⟨_, rfl⟩

end Check

end DocLint
