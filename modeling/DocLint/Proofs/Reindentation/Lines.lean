import DocLint.Proofs.Docstring.Content
import DocLint.Proofs.Reindentation.Text

/-!
# Reindented lines

A docstring that stands `n` lines further down and `k` columns further right in the file, with all
its lines indented by `k` more, has the same lines at other places.  The first line stands behind
the opening delimiter and moves as a whole; every other line begins where its line of the file
begins, and has the `k` columns as spaces of its own.

* `DocLine.push`: a line that has some of the columns in front of it as spaces.
* `column_push`, `drop_push`, `fragment_push`: behind the spaces everything has moved alike.
* `dedent_indented`: dedenting takes the spaces away again.
-/

namespace DocLint

open Bytes

/-- The fragment at the moved place. -/
def Fragment.shift (n k : Nat) (f : Fragment) : Fragment := ⟨f.value, f.span.shift n k⟩

namespace DocLine

/-- The line at the moved place, where `m` of the `k` columns are spaces on the line itself. -/
def push (n k m : Nat) (line : DocLine) : DocLine :=
  ⟨line.position.shift n (k - m), spaces m ++ line.text⟩

/-- The same text at the moved place. -/
def shift (n k : Nat) (line : DocLine) : DocLine := ⟨line.position.shift n k, line.text⟩

/-- A line at the beginning of a line of the file gains all columns as spaces. -/
def indented (n k : Nat) (line : DocLine) : DocLine := line.push n k k

/-- The spaces that the line gains: none where something stands in front of it in the file. -/
def gained (k : Nat) (line : DocLine) : Nat := if line.position.column = 1 then k else 0

/-- The line as a line of the reindented docstring. -/
def reindent (n k : Nat) (line : DocLine) : DocLine := line.push n k (line.gained k)

theorem gained_le (k : Nat) (line : DocLine) : line.gained k ≤ k := by
  unfold gained
  split
  · exact Nat.le_refl k
  · exact Nat.zero_le k

theorem reindent_eq_indented {line : DocLine} (h : line.position.column = 1) (n k : Nat) :
    line.reindent n k = line.indented n k := by
  rw [reindent, gained, if_pos h, indented]

section Push

variable {n k m : Nat} (line : DocLine)

theorem column_push (h : m ≤ k) (j : Nat) :
    (line.push n k m).column (m + j) = (line.column j).shift n k :=
  Position.right_shift_sub h n j line.position

@[simp] theorem leading_push : (line.push n k m).leading = m + line.leading :=
  leading_spaces_append m line.text

@[simp] theorem strip_push : strip (line.push n k m).text = strip line.text :=
  strip_spaces_append m line.text

@[simp] theorem stripStart_push : stripStart (line.push n k m).text = stripStart line.text :=
  stripStart_spaces_append m line.text

@[simp] theorem isBlank_push : (line.push n k m).isBlank = line.isBlank :=
  isBlank_spaces_append m line.text

theorem stop_push (h : m ≤ k) : (line.push n k m).stop = line.stop.shift n k := by
  have hlength : (line.push n k m).text.length = m + line.text.length := by simp [push]
  rw [stop, hlength, column_push line h, stop]

/-- Behind its spaces the line is the old one. -/
theorem drop_push (h : m ≤ k) (j : Nat) :
    (line.push n k m).drop (m + j) = (line.drop j).shift n k := by
  rw [drop, column_push line h, show (line.push n k m).text = spaces m ++ line.text from rfl,
    drop_spaces_append, drop, shift]

theorem fragment_push (h : m ≤ k) (j : Nat) (value : Bytes) :
    (line.push n k m).fragment (m + j) value = (line.fragment j value).shift n k := by
  rw [fragment, Nat.add_assoc, column_push line h, column_push line h, fragment, Fragment.shift,
    Span.shift]

theorem stripped_push (h : m ≤ k) : (line.push n k m).stripped = line.stripped.shift n k := by
  rw [stripped, leading_push, strip_push, fragment_push line h, stripped]

end Push

theorem column_shift (n k j : Nat) (line : DocLine) :
    (line.shift n k).column j = (line.column j).shift n k :=
  Position.right_shift n k j line.position

theorem fragment_shift (n k j : Nat) (value : Bytes) (line : DocLine) :
    (line.shift n k).fragment j value = (line.fragment j value).shift n k := by
  rw [fragment, column_shift, column_shift, fragment, Fragment.shift, Span.shift]

theorem stop_shift (n k : Nat) (line : DocLine) : (line.shift n k).stop = line.stop.shift n k :=
  column_shift n k _ line

theorem dedent_indented (n k indent : Nat) (line : DocLine) :
    (line.indented n k).dedent (indent + k) = (line.dedent indent).shift n k := by
  have hmin : min (indent + k) (k + line.leading) = k + min indent line.leading := by omega
  rw [dedent, indented, leading_push, hmin, drop_push line (Nat.le_refl k), dedent]

theorem keepsContent_reindent (n k : Nat) : KeepsContent (reindent n k) :=
  fun line => strip_push line

end DocLine

end DocLint
