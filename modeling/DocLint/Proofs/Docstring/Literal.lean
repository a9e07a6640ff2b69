import DocLint.Docstring.Line
import DocLint.Proofs.Source.StringLiteral
import DocLint.Proofs.Text.Place

/-!
# The lines of a literal

The first line of a literal stands behind the opening delimiter, and every other one begins a line
of the file.

* `lines_of_body`: the lines with their positions.
* `lines_place`: each line of a literal stands behind the opening and the lines above it, and its
  position is the one after them.
* `lines_standAt`: the source text holds the lines of a literal at their positions.
-/

namespace DocLint

open Bytes

namespace DocLiteral

theorem lines_of_body {literal : DocLiteral} {first : Bytes} {rest : List Bytes}
    (h : Bytes.lines literal.body = first :: rest) :
    literal.lines = ⟨literal.bodyStart, first⟩ :: rest.mapIdx fun i text =>
      ⟨⟨literal.bodyStart.line + UInt32.ofNat (i + 1), 1⟩, text⟩ := by
  rw [lines, h, List.mapIdx_cons]
  rfl

/-- The second line of a literal is one line below the first. -/
theorem line_sub_of_lines {literal : DocLiteral} {first second : DocLine} {rest : List DocLine}
    (h : literal.lines = first :: second :: rest) :
    second.position.line - first.position.line = 1 := by
  obtain ⟨text, texts, hbody⟩ := List.exists_cons_of_ne_nil (lines_ne_nil literal.body)
  rw [lines_of_body hbody] at h
  obtain ⟨rfl, htail⟩ := List.cons.inj h
  cases texts with
  | nil => cases htail
  | cons text' texts =>
      rw [List.mapIdx_cons] at htail
      obtain ⟨rfl, -⟩ := List.cons.inj htail
      exact (congrArg (· - literal.bodyStart.line) (UInt32.add_comm _ _)).trans
        (UInt32.add_sub_cancel _ _)

end DocLiteral

/-- The first `i` lines, each with the newline behind it. -/
def linesAbove (texts : List Bytes) (i : Nat) : Bytes :=
  (texts.take i).flatMap fun text => text ++ [newline]

@[simp] theorem linesAbove_zero (texts : List Bytes) : linesAbove texts 0 = [] := rfl

@[simp] theorem linesAbove_cons (first : Bytes) (texts : List Bytes) (i : Nat) :
    linesAbove (first :: texts) (i + 1) = first ++ newline :: linesAbove texts i := by
  simp [linesAbove]

/-- A line stands behind the lines above it. -/
theorem join_eq_linesAbove {texts : List Bytes} {i : Nat} (hi : i < texts.length) :
    ∃ rest, join [newline] texts = linesAbove texts i ++ (texts[i] ++ rest) := by
  induction texts generalizing i with
  | nil => cases hi
  | cons first texts ih =>
      cases texts with
      | nil =>
          obtain rfl : i = 0 := Nat.lt_one_iff.1 hi
          exact ⟨[], by simp [join]⟩
      | cons next texts =>
          have hjoin : join [newline] (first :: next :: texts) =
              first ++ newline :: join [newline] (next :: texts) := by
            simp [join]
          cases i with
          | zero => exact ⟨newline :: join [newline] (next :: texts), hjoin⟩
          | succ i =>
              obtain ⟨rest, hrest⟩ := ih (Nat.lt_of_succ_lt_succ hi)
              refine ⟨rest, ?_⟩
              rw [hjoin, hrest]
              simp

/-- Behind the first `i` lines is the beginning of the line `i` lines down. -/
theorem Position.after_linesAbove {texts : List Bytes} (hline : ∀ text ∈ texts, newline ∉ text)
    {i : Nat} (hi : i ≤ texts.length) (p : Position) :
    p.after (linesAbove texts i) = if i = 0 then p else ⟨p.line + UInt32.ofNat i, 1⟩ := by
  induction texts generalizing i p with
  | nil =>
      obtain rfl := Nat.le_zero.1 hi
      rfl
  | cons first texts ih =>
      cases i with
      | zero => rfl
      | succ i =>
          have hrest := ih (fun text htext => hline text (List.mem_cons_of_mem first htext))
            (Nat.le_of_succ_le_succ hi) ⟨p.line + 1, 1⟩
          have hfirst : (p.after first).step newline = ⟨p.line + 1, 1⟩ := by
            rw [after_eq_right (hline first List.mem_cons_self)]
            rfl
          rw [linesAbove_cons, after_append, after_cons, hfirst, hrest, if_neg (Nat.succ_ne_zero i)]
          cases i with
          | zero => rfl
          | succ i =>
              rw [if_neg (Nat.succ_ne_zero i), UInt32.add_assoc, UInt32.ofNat_add (i + 1),
                UInt32.add_comm 1]
              rfl

namespace DocLiteral

variable {source front behind text mark delimiter body : Bytes}

/-- The line `i` lines down, as the literal has it. -/
theorem getElem_lines (literal : DocLiteral) {i : Nat} (hi : i < literal.lines.length) :
    ∃ hi' : i < (Bytes.lines literal.body).length, literal.lines[i] =
      ⟨if i = 0 then literal.bodyStart else ⟨literal.bodyStart.line + UInt32.ofNat i, 1⟩,
        (Bytes.lines literal.body)[i]⟩ := by
  refine ⟨literal.length_lines ▸ hi, ?_⟩
  simp only [lines, List.getElem_mapIdx]
  split
  · rfl
  · rfl

/-- A line of a closed literal stands behind the opening and the lines above it. -/
theorem lines_place (hsource : source = front ++ (text ++ behind))
    (hwritten : IsWritten text mark delimiter body) {i : Nat}
    (hi : i < (ofText text (Position.after {} front)).lines.length) :
    let above := front ++ (mark ++ (delimiter ++ linesAbove (Bytes.lines body) i))
    let line := (ofText text (Position.after {} front)).lines[i]
    (∃ rest, source = above ++ (line.text ++ rest)) ∧
      line.position = Position.after {} above ∧ newline ∉ line.text := by
  intro above line
  have hliteral := hwritten.ofText_eq (Position.after {} front)
  have hbody : (ofText text (Position.after {} front)).body = body := by rw [hliteral]
  obtain ⟨hi', hline⟩ := getElem_lines _ hi
  simp only [hbody] at hi' hline
  have hplain : ∀ text ∈ Bytes.lines body, newline ∉ text := fun _ =>
    newline_not_mem_of_mem_lines
  have hstart : (ofText text (Position.after {} front)).bodyStart =
      Position.after {} (front ++ (mark ++ delimiter)) := by
    rw [hliteral, Position.after_append, Position.after_eq_right hwritten.newline_not_mem_opening,
      List.length_append]
  obtain ⟨rest, hrest⟩ := join_eq_linesAbove hi'
  rw [join_lines] at hrest
  refine ⟨⟨rest ++ (delimiter ++ behind), ?_⟩, ?_, ?_⟩
  · -- The text of the body is cut in front of the line.
    conv_lhs => rw [hsource, hwritten.text_eq, hrest]
    simp [line, hline, above]
  · have habove : above = (front ++ (mark ++ delimiter)) ++ linesAbove (Bytes.lines body) i := by
      simp [above]
    rw [show line.position = _ from congrArg DocLine.position hline, habove, Position.after_append,
      ← hstart, Position.after_linesAbove hplain (Nat.le_of_lt hi')]
  · rw [show line.text = _ from congrArg DocLine.text hline]
    exact hplain _ (List.getElem_mem hi')

/-- The lines of a closed literal stand in the source text. -/
theorem lines_standAt (hsource : source = front ++ (text ++ behind))
    (hsize : source.length < 2 ^ 31) (hwritten : IsWritten text mark delimiter body) :
    ∀ line ∈ (ofText text (Position.after {} front)).lines,
      StandsAt source line.position line.text := by
  intro line hline
  obtain ⟨i, hi, rfl⟩ := List.mem_iff_getElem.1 hline
  obtain ⟨⟨rest, hplace⟩, hposition, hplain⟩ := lines_place hsource hwritten hi
  rw [hposition]
  exact standsAt_after hplace hsize hplain

end DocLiteral

end DocLint
