import DocLint.Proofs.Check.Margin
import DocLint.Proofs.Reindentation.Docstring

/-!
# What rules see of a reindented docstring

What stands on a line, and what is said in a description, is found again behind the spaces that the
lines of a reindented docstring gain.

* `keepsDescriptions_indented`: the properties of descriptions stay.
* `tabSpan?_reindent`, `deprecations_reindent`: what stands on a line is found at the moved place.
-/

namespace DocLint

open Bytes

/-! ### Entries and descriptions -/

theorem DocSection.parameters_reindent (n k : Nat) (s : DocSection) :
    (s.reindent n k).parameters = s.parameters.map (ParameterEntry.shift n k) := by
  unfold DocSection.parameters
  cases hcontents : s.contents with
  | parameters entries => simp [DocSection.reindent, hcontents, SectionContents.shift]
  | seeAlso entries => simp [DocSection.reindent, hcontents, SectionContents.shift]
  | text lines => simp [DocSection.reindent, hcontents, SectionContents.shift]

/-- A version directive is found behind spaces. -/
theorem DocLine.hasVersionDirective_push (n k m : Nat) (line : DocLine) :
    (line.push n k m).hasVersionDirective = line.hasVersionDirective := by
  have htext : (line.push n k m).text = spaces m ++ line.text := rfl
  rw [hasVersionDirective_of_text htext, hasVersionDirective]

/-- All lines of a description gain as many spaces. -/
theorem DocLine.keepsDescriptions_indented (n k : Nat) :
    KeepsDescriptions (DocLine.indented n k) where
  content := fun line => DocLine.strip_push line
  directive := DocLine.hasVersionDirective_push n k k
  deeper := fun line line' _ _ => by
    rw [DocLine.indented, DocLine.leading_push, DocLine.indented, DocLine.leading_push]
    exact Nat.add_lt_add_iff_left

/-! ### Lines -/

theorem Span.ofLength_shift (n k length : Nat) (p : Position) :
    ofLength (p.shift n k) length = (ofLength p length).shift n k := by
  rw [ofLength, Position.right_shift, ofLength, shift]

theorem DocLine.column_reindent (n k j : Nat) (line : DocLine) :
    (line.reindent n k).column (line.gained k + j) = (line.column j).shift n k :=
  column_push line (gained_le k line) j

theorem DocLine.stop_reindent (n k : Nat) (line : DocLine) :
    (line.reindent n k).stop = line.stop.shift n k :=
  stop_push line (gained_le k line)

namespace Check

/-- Spaces in front of an indentation with a tab in it do not change what stands behind its last
tab. -/
theorem takeWhile_ne_tab_reverse {s : Bytes} (h : tab ∈ s) (m : Nat) :
    (spaces m ++ s).reverse.takeWhile (fun c => decide (c ≠ tab)) =
      s.reverse.takeWhile (fun c => decide (c ≠ tab)) := by
  rw [List.reverse_append, List.takeWhile_append, if_neg]
  intro hlength
  have htab := length_takeWhile_eq_iff.1 hlength tab (List.mem_reverse.2 h)
  exact absurd htab (by decide)

/-- The tabs of an indentation stand behind the spaces. -/
theorem tabSpan?_reindent (n k : Nat) (line : DocLine) :
    tabSpan? (line.reindent n k) = (tabSpan? line).map (Span.shift n k) := by
  have hindentation : (line.reindent n k).text.takeWhile isSpace =
      spaces (line.gained k) ++ line.text.takeWhile isSpace :=
    takeWhile_isSpace_spaces_append (line.gained k) line.text
  have hspaces : ∀ c ∈ spaces (line.gained k), decide (c ≠ tab) = true := by
    intro c hc
    rw [List.eq_of_mem_replicate hc]
    rfl
  have hno : tab ∉ spaces (line.gained k) := fun h => absurd (hspaces tab h) (by decide)
  unfold tabSpan?
  simp only [hindentation, List.mem_append, hno, false_or]
  by_cases htab : tab ∈ line.text.takeWhile isSpace
  · have hle := (List.takeWhile_prefix (fun c => decide (c ≠ tab))
      (l := (line.text.takeWhile isSpace).reverse)).length_le
    rw [List.length_reverse] at hle
    rw [if_pos htab, if_pos htab, takeWhile_ne_tab_reverse htab,
      List.takeWhile_append_of_pos hspaces, List.length_append, List.length_append, length_spaces,
      Nat.add_sub_assoc hle, DocLine.column_reindent, DocLine.column_reindent]
    rfl
  · rw [if_neg htab, if_neg htab]
    rfl

theorem deprecations_reindent (n k : Nat) (lines : List DocLine) :
    deprecations (lines.map (DocLine.reindent n k)) =
      (deprecations lines).map (Span.shift n k) := by
  obtain ⟨r, hr⟩ := deprecationMarker_eq_cons
  unfold deprecations
  rw [List.filterMap_map, List.map_filterMap]
  congr 1
  funext line
  rw [Function.comp_apply, DocLine.reindent, DocLine.push,
    offsetOf?_spaces_append hr (by decide), Option.map_map, Option.map_map]
  congr 1
  funext j
  rw [Function.comp_apply, Function.comp_apply, ← Span.ofLength_shift]
  exact congrArg (Span.ofLength · _) (DocLine.column_reindent n k j line)

end Check

end DocLint
