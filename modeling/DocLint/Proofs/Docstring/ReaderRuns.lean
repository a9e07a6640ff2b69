import DocLint.Proofs.Docstring.Paragraphs

/-!
# Runs of a reader

A reader may be asked for lines and about lines in any order.  Every request for lines takes a
number of them from what is ahead, and a question takes none, so a run loses no line and reads none
twice, and where it stands is told by the lines that it has taken.

* `taken_eq_take`, `after_eq_take`: every request takes a number of lines.
* `advances`: what one request does to a reader.
* `flatten_takenBy`: a run takes the lines between its ends.
* `run_advances`: what a run comes to.
-/

namespace DocLint

namespace LineReader

/-- What a reader can be asked: for lines, to pass over lines, or what is around it. -/
inductive Request
  | read
  | readWhile (p : DocLine → Bool)
  | readParagraph
  | readUntilBoundary
  | skipBlank
  | peek (k : Nat)
  | previous
  | atBoundary

namespace Request

/-- The request is a question, which leaves the reader alone. -/
def isQuestion : Request → Bool
  | peek _ | previous | atBoundary => true
  | _ => false

/-- The lines that a reader hands out, or passes over. -/
def taken (r : LineReader) : Request → List DocLine
  | read => r.read.1.toList
  | readWhile p => (r.readWhile p).1
  | readParagraph => r.readParagraph.1
  | readUntilBoundary => r.readUntilBoundary.1
  | skipBlank => r.rest.takeWhile DocLine.isBlank
  | peek _ | previous | atBoundary => []

/-- The reader after the request. -/
def after (r : LineReader) : Request → LineReader
  | read => r.read.2
  | readWhile p => (r.readWhile p).2
  | readParagraph => r.readParagraph.2
  | readUntilBoundary => r.readUntilBoundary.2
  | skipBlank => r.skipBlank
  | peek _ | previous | atBoundary => r

/-- The number of lines that are asked for. -/
def count (r : LineReader) : Request → Nat
  | read => 1
  | readWhile p => (r.rest.takeWhile p).length
  | readParagraph => paragraphLength r.rest
  | readUntilBoundary => chunkLength r.rest
  | skipBlank => (r.rest.takeWhile DocLine.isBlank).length
  | peek _ | previous | atBoundary => 0

end Request

/-- The reader after some requests. -/
def run (r : LineReader) (requests : List Request) : LineReader :=
  requests.foldl Request.after r

/-- The lines that each of some requests takes. -/
def takenBy (r : LineReader) : List Request → List (List DocLine)
  | [] => []
  | q :: rest => q.taken r :: takenBy (q.after r) rest

/-- What a request does to a reader that stands among some lines. -/
structure Advances (lines : List DocLine) (r : LineReader) (q : Request) : Prop where
  lines_eq : (q.after r).lines = lines
  forward : r.position ≤ (q.after r).position
  le_length : (q.after r).position ≤ lines.length
  /-- What is taken are the lines on the way. -/
  taken_eq : q.taken r = lines.extract r.position (q.after r).position
  question : q.isQuestion = true → q.after r = r
  /-- A paragraph holds neither blank lines nor boundaries. -/
  paragraph : q = .readParagraph → ∀ i, r.position ≤ i → i < (q.after r).position →
    blankAt lines i = false ∧ ¬ BoundaryAt lines i
  /-- A chunk is not empty, and leads to a boundary or to the end. -/
  chunk : q = .readUntilBoundary →
    (r.position < lines.length → r.position < (q.after r).position) ∧
      ((q.after r).position = lines.length ∨ BoundaryAt lines (q.after r).position)

variable {r : LineReader} {q : Request}

/-! ### One request -/

theorem taken_eq_take (r : LineReader) (q : Request) : q.taken r = (r.take (q.count r)).1 := by
  cases q with
  | read => exact List.take_one.symm
  | skipBlank => exact List.prefix_iff_eq_take.1 (List.takeWhile_prefix _)
  | _ => rfl

theorem after_eq_take (r : LineReader) (q : Request) : q.after r = (r.take (q.count r)).2 := by
  cases q <;> rfl

/-- What one request does. -/
theorem advances (r : LineReader) (q : Request) : Advances r.lines r q := by
  have hafter := after_eq_take r q
  have hlines : (q.after r).lines = r.lines := by rw [hafter, lines_take]
  have hposition : (q.after r).position = r.position + min (q.count r) r.rest.length := by
    rw [hafter, position_take]
  refine ⟨hlines, by omega, hlines ▸ position_le _, ?_, fun hquestion => ?_, ?_, ?_⟩
  · rw [taken_eq_take, hafter, take_eq_extract]
  · cases q with
    | peek k => rfl
    | previous => rfl
    | atBoundary => rfl
    | _ => cases hquestion
  · rintro rfl i hi hi'
    exact ⟨not_blankAt_of_lt_readParagraph hi hi', (readParagraph_passes r).calm i hi hi'⟩
  · rintro rfl
    refine ⟨fun hlt => ?_, ?_⟩
    · refine (readUntilBoundary_endsAt fun hrest => ?_).behind
      rw [rest_eq_drop, List.drop_eq_nil_iff] at hrest
      omega
    · rw [← hlines]
      refine (atMark_readUntilBoundary r).imp (fun hend => ?_) (boundaryAt_position _).2
      rw [rest_eq_drop, List.drop_eq_nil_iff] at hend
      exact Nat.le_antisymm (position_le _) hend

/-! ### Runs -/

theorem lines_run (r : LineReader) (requests : List Request) : (r.run requests).lines = r.lines := by
  induction requests generalizing r with
  | nil => rfl
  | cons q rest ih => exact (ih (q.after r)).trans (advances r q).lines_eq

theorem position_le_run (r : LineReader) (requests : List Request) :
    r.position ≤ (r.run requests).position := by
  induction requests generalizing r with
  | nil => exact Nat.le_refl _
  | cons q rest ih => exact Nat.le_trans (advances r q).forward (ih (q.after r))

/-- A run takes the lines between its ends, one request after the other. -/
theorem flatten_takenBy (r : LineReader) (requests : List Request) :
    (takenBy r requests).flatten = r.lines.extract r.position (r.run requests).position := by
  induction requests generalizing r with
  | nil => simp [takenBy, run]
  | cons q rest ih =>
      have hstep := advances r q
      have hrest := position_le_run (q.after r) rest
      rw [takenBy, List.flatten_cons, ih, hstep.taken_eq, hstep.lines_eq]
      exact extract_append_extract r.lines hstep.forward hrest

/-- A reader that has been asked anything, in any order, stands among the same lines: the ones in
front of it are those that it has handed out or passed over, in order and each of them once.
Whatever it is asked next does not move it backward nor behind the end; a question does not move it
at all; a paragraph holds neither blank lines nor boundaries; and a chunk takes a line, unless none
is left, and leads to a boundary or to the end. -/
theorem run_advances (lines : List DocLine) (requests : List Request) :
    let start : LineReader := { rest := lines }
    (start.run requests).position ≤ lines.length ∧
      (takenBy start requests).flatten = lines.take (start.run requests).position ∧
      ∀ q, Advances lines (start.run requests) q := by
  intro start
  have hlines : (start.run requests).lines = lines := lines_run start requests
  refine ⟨?_, ?_, fun q => ?_⟩
  · rw [← hlines]
    exact position_le _
  · rw [flatten_takenBy]
    exact List.extract_eq_take_drop
  · have hstep := advances (start.run requests) q
    rwa [hlines] at hstep

end LineReader

end DocLint
