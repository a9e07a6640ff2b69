import DocLint.Docstring.Basic

/-!
# Reading sections

Behind the blank lines stand the lines up to the next boundary: one section, or none.

* `head?_dropWhile_isBlank`: what stands behind the blank lines is not blank.
* `readUntilBoundary_of_cons`: the chunk that begins at a line.
* `readSections_of_end`, `readSections_of_none`, `readSections_of_some`: what a round of the reading
  comes to.
-/

namespace DocLint

/-- What stands behind the first line of a suffix stands behind the first line. -/
theorem mem_tail_of_suffix {l' l : List DocLine} (h : l' <:+ l) {line : DocLine}
    (hline : line ∈ l'.tail) : line ∈ l.tail := by
  obtain ⟨p, rfl⟩ := h
  cases p with
  | nil => exact hline
  | cons first p => exact List.mem_append_right p (List.mem_of_mem_tail hline)

theorem head?_dropWhile_isBlank {p : Paragraph} {line : DocLine}
    (h : line ∈ (p.dropWhile DocLine.isBlank).head?) : line.isBlank = false := by
  have hstop := List.head?_dropWhile_not DocLine.isBlank p
  rwa [Option.mem_def.1 h] at hstop

theorem drop_takeWhile_isBlank (p : Paragraph) :
    p.drop (p.takeWhile DocLine.isBlank).length = p.dropWhile DocLine.isBlank :=
  calc p.drop (p.takeWhile DocLine.isBlank).length
    _ = (p.takeWhile DocLine.isBlank ++ p.dropWhile DocLine.isBlank).drop
        (p.takeWhile DocLine.isBlank).length := by rw [List.takeWhile_append_dropWhile]
    _ = p.dropWhile DocLine.isBlank := List.drop_left

namespace LineReader

theorem rest_skipBlank (r : LineReader) :
    r.skipBlank.rest = r.rest.drop (r.rest.takeWhile DocLine.isBlank).length := rfl

/-- Where no blank line is ahead, none is passed over. -/
theorem skipBlank_eq_self {r : LineReader} (h : ∀ l ∈ r.rest.head?, l.isBlank = false) :
    r.skipBlank = r := by
  have hzero : (r.rest.takeWhile DocLine.isBlank).length = 0 := by
    cases hrest : r.rest with
    | nil => rfl
    | cons line rest =>
        rw [hrest] at h
        rw [List.takeWhile_cons_of_neg (by simp [h line rfl])]
        rfl
  rw [skipBlank, readWhile, hzero, take]
  simp

/-- A chunk is the line at which it begins and all lines before the next boundary. -/
theorem readUntilBoundary_of_cons {r : LineReader} {header : DocLine} {rest : List DocLine}
    (h : r.rest = header :: rest) :
    r.readUntilBoundary.1 = header :: rest.take (boundaryDistance rest) ∧
      r.readUntilBoundary.2.rest = rest.drop (boundaryDistance rest) := by
  unfold readUntilBoundary
  rw [take, h, chunkLength]
  exact ⟨rfl, rfl⟩

end LineReader

namespace Docstring

section Rounds

variable {indent : Nat} {r : LineReader}

theorem readSections_of_end (h : r.skipBlank.rest = []) : readSections indent r = ([], []) := by
  rw [readSections]
  exact if_pos h

theorem readSections_of_none (h : r.skipBlank.rest ≠ [])
    (hnone : DocSection.ofLines r.skipBlank.previous indent r.skipBlank.readUntilBoundary.1 =
      none) :
    readSections indent r = readSections indent r.skipBlank.readUntilBoundary.2 := by
  rw [readSections]
  simp only [if_neg h, hnone]

theorem readSections_of_some {found : DocSection} {flaws : List Flaw} (h : r.skipBlank.rest ≠ [])
    (hsome : DocSection.ofLines r.skipBlank.previous indent r.skipBlank.readUntilBoundary.1 =
      some (found, flaws)) :
    readSections indent r =
      (found :: (readSections indent r.skipBlank.readUntilBoundary.2).1,
        flaws ++ (readSections indent r.skipBlank.readUntilBoundary.2).2) := by
  rw [readSections]
  simp only [if_neg h, hsome]

end Rounds

end Docstring

end DocLint
