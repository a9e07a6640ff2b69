import DocLint.Proofs.Source.Simulation
import DocLint.Proofs.Source.TokenText

/-!
# Where comments stand

The lexer reads on from place to place, and wherever it finds a comment, it knows the position and
whether there was anything but indentation in front of it on the line.

* `Passes`: the way of the lexer from one place to another, and the comments on it.
* `ownLine_eq`: what the lexer knows of the bytes in front of a comment.
* `comments_ordered`, `comments_sorted`: comments in the order of their offsets, and of their lines.
-/

namespace DocLint

open Bytes

/-! ### The places of comments -/

/-- What stands on the line of an offset in front of it, the nearest byte first. -/
def Bytes.lineFront (source : Bytes) (k : Nat) : Bytes :=
  (source.take k).reverse.takeWhile fun c => c != newline

namespace ByteCursor

theorem skip_of_nil {cursor : ByteCursor} (h : cursor.rest = []) (n : Nat) :
    cursor.skip n = cursor := by
  cases n with
  | zero => rfl
  | succ n => rw [skip, h]

/-- Skipping twice. -/
theorem skip_skip (m n : Nat) (cursor : ByteCursor) :
    (cursor.skip m).skip n = cursor.skip (m + n) := by
  induction m generalizing cursor with
  | zero => rw [Nat.zero_add, skip]
  | succ m ih =>
      rw [Nat.succ_add]
      cases hrest : cursor.rest with
      | nil => rw [skip_of_nil hrest, skip_of_nil hrest, skip_of_nil hrest]
      | cons c r =>
          rw [skip, skip, hrest]
          exact ih (cursor.step c r)

theorem blankLine_skip (n : Nat) (cursor : ByteCursor) :
    (cursor.skip n).blankLine = blankAfter cursor.blankLine (cursor.rest.take n) := by
  induction n generalizing cursor with
  | zero => rfl
  | succ n ih =>
      unfold skip
      split
      next hrest => rw [hrest]; rfl
      next c r hrest => rw [ih, hrest]; rfl

/-- A line is blank if all that has been read of it is indentation. -/
theorem blankAfter_true (s : Bytes) :
    blankAfter true s = (s.reverse.takeWhile fun c => c != newline).all isIndentation := by
  induction s using List.reverseRecOn with
  | nil => rfl
  | append_singleton s c ih =>
      have hlast : blankAfter true (s ++ [c]) =
          (c == newline || (blankAfter true s && isIndentation c)) := List.foldl_append
      rw [hlast, ih, List.reverse_concat]
      by_cases hc : c = newline
      · subst hc
        rfl
      · rw [List.takeWhile_cons_of_pos (by simpa using hc), List.all_cons, beq_false_of_ne hc,
          Bool.false_or, Bool.and_comm]

end ByteCursor

/-- The lexer gets from the one place to the other, and the comments among the items begin on the
way. -/
structure Passes (items : List LexItem) (cursor next : ByteCursor) : Prop where
  next_eq : ∃ n, next = cursor.skip n
  comment_eq : ∀ c, LexItem.comment c ∈ items → ∃ n, c = (cursor.skip n).comment

namespace Passes

variable {items more : List LexItem} {cursor next last : ByteCursor}

theorem of_no_comment (n : Nat) (h : ∀ c, LexItem.comment c ∉ items) :
    Passes items cursor (cursor.skip n) :=
  ⟨⟨n, rfl⟩, fun c hc => absurd hc (h c)⟩

theorem comment (cursor : ByteCursor) (n : Nat) :
    Passes [.comment cursor.comment] cursor (cursor.skip n) :=
  ⟨⟨n, rfl⟩, fun _ hc => ⟨0, LexItem.comment.inj (List.mem_singleton.1 hc)⟩⟩

theorem skip (h : Passes items cursor next) (n : Nat) : Passes items cursor (next.skip n) := by
  obtain ⟨m, rfl⟩ := h.next_eq
  exact ⟨⟨m + n, ByteCursor.skip_skip m n cursor⟩, h.comment_eq⟩

theorem trans (h : Passes items cursor next) (hmore : Passes more next last) :
    Passes (items ++ more) cursor last := by
  obtain ⟨m, rfl⟩ := h.next_eq
  refine ⟨?_, fun c hc => ?_⟩
  · obtain ⟨n, rfl⟩ := hmore.next_eq
    exact ⟨m + n, ByteCursor.skip_skip m n cursor⟩
  · rcases List.mem_append.1 hc with hc | hc
    · exact h.comment_eq c hc
    · obtain ⟨n, rfl⟩ := hmore.comment_eq c hc
      exact ⟨m + n, by rw [ByteCursor.skip_skip]⟩

end Passes

namespace Lexer

theorem optionalComment_passes (cursor : ByteCursor) :
    Passes (optionalComment cursor).1 cursor (optionalComment cursor).2 := by
  unfold optionalComment
  split
  · exact .comment cursor _
  · exact .of_no_comment 0 (by simp)

theorem optionalReturn_passes (cursor : ByteCursor) : Passes [] cursor (optionalReturn cursor) := by
  unfold optionalReturn
  split
  · exact .of_no_comment 1 (by simp)
  · exact .of_no_comment 0 (by simp)

theorem comment_not_mem_layout (cursor : ByteCursor) (levels : List Nat) (width : Nat) (c : Comment) :
    LexItem.comment c ∉ (layout cursor levels width).1 := by
  unfold layout
  split
  · simp
  · dsimp only
    split
    · simp
    · simp

theorem startLine_passes (l : Lexer) : Passes l.startLine.1 l.cursor l.startLine.2.cursor := by
  have hindentation : Passes [] l.cursor
      (l.cursor.skip (l.cursor.rest.takeWhile isIndentation).length) := .of_no_comment _ (by simp)
  have hhere := (hindentation.trans (optionalComment_passes _)).trans (optionalReturn_passes _)
  rw [List.nil_append, List.append_nil] at hhere
  dsimp only [startLine]
  split
  · exact hhere
  · split
    · exact hhere.skip 1
    · exact hhere.trans (.of_no_comment 0 (comment_not_mem_layout _ _ _))

theorem finish_passes (l : Lexer) (here : ByteCursor) :
    Passes (l.finish here).1 here (l.finish here).2.cursor := by
  refine .of_no_comment 0 fun c hc => ?_
  simp only [finish, List.mem_append, List.mem_map, List.mem_singleton] at hc
  rcases hc with ((hfault | hline) | ⟨_, -, hblock⟩) | hend
  · split at hfault
    · cases List.mem_singleton.1 hfault
    · cases hfault
  · split at hline
    · cases List.mem_singleton.1 hline
    · cases hline
  · cases hblock
  · cases hend

theorem endLine_passes (l : Lexer) (here : ByteCursor) :
    Passes (l.endLine here).1 here (l.endLine here).2.cursor := by
  unfold endLine
  split
  · exact .of_no_comment 1 (by simp)
  · split
    · exact .of_no_comment 1 (by simp)
    · exact .of_no_comment 1 (by simp)

theorem readLexeme_passes (l : Lexer) (here : ByteCursor) (c : UInt8) (r : Bytes) :
    Passes (l.readLexeme here c r).1 here (l.readLexeme here c r).2.cursor := by
  refine .of_no_comment _ fun d hd => ?_
  dsimp only [readLexeme] at hd
  split at hd
  · simp at hd
  · simp at hd

theorem resume_passes (l : Lexer) : Passes l.resume.1 l.cursor l.resume.2.cursor := by
  have hgaps : Passes [] l.cursor (l.cursor.skip (gapLength l.cursor.rest)) :=
    .of_no_comment _ (by simp)
  dsimp only [resume]
  split
  · exact hgaps.trans (finish_passes l _)
  next c r _ =>
    split
    · exact hgaps.trans (.comment _ _)
    · split
      · exact hgaps.trans (endLine_passes l _)
      · exact hgaps.trans (readLexeme_passes l _ c r)

theorem step_passes (l : Lexer) : Passes l.step.1 l.cursor l.step.2.cursor := by
  unfold step
  split
  · exact startLine_passes l
  · exact resume_passes l

/-- The comments of a run begin at places that the lexer gets to by reading on. -/
theorem run_passes (l : Lexer) : Passes l.run.1 l.cursor l.run.2.cursor := by
  fun_induction run l with
  | case1 l _ => exact .of_no_comment 0 (by simp)
  | case2 l _ rest ih => exact (step_passes l).trans ih

end Lexer

/-- All that stands in front of the comment on its line are blanks. -/
def Comment.standsAlone (source : Bytes) (blank : UInt8 → Bool) (c : Comment) : Bool :=
  (source.lineFront c.offset).all blank

namespace LexedSource

variable {source : Bytes} {c : Comment}

/-- A comment begins where the lexer has read the bytes in front of it. -/
theorem exists_front (hc : c ∈ (ofSource source).comments) :
    ∃ front behind, source = front ++ behind ∧ c.offset = front.length ∧
      c.position = Position.after {} front ∧ c.ownLine = ByteCursor.blankAfter true front := by
  obtain ⟨n, rfl⟩ := (Lexer.run_passes (Lexer.ofSource source)).comment_eq c (mem_comments_iff.1 hc)
  have hstart : (Lexer.ofSource source).cursor.At [] := ⟨rfl, rfl⟩
  obtain ⟨hposition, hoffset⟩ := ByteCursor.at_skip hstart n
  exact ⟨source.take n, source.drop n, (List.take_append_drop n source).symm, hoffset, hposition,
    ByteCursor.blankLine_skip n _⟩

/-- A comment is on a line of its own if there is nothing but indentation in front of it. -/
theorem ownLine_eq (hc : c ∈ (ofSource source).comments) :
    c.ownLine = c.standsAlone source isIndentation := by
  obtain ⟨front, behind, hsource, hoffset, -, hown⟩ := exists_front hc
  rw [hown, ByteCursor.blankAfter_true, Comment.standsAlone, lineFront, hoffset, hsource,
    List.take_left]

theorem comment_line_eq (hlines : source.count newline + 1 < 2 ^ 32)
    (hc : c ∈ (ofSource source).comments) :
    c.position.line.toNat = source.lineNumber c.offset := by
  obtain ⟨front, behind, hsource, hoffset, hposition, -⟩ := exists_front hc
  rw [hposition, hoffset]
  exact Position.line_after hsource hlines

/-- The comments of a source text stand in it one behind the other. -/
theorem comments_ordered (source : Bytes) :
    (ofSource source).comments.Pairwise fun b c => b.offset + b.text.length ≤ c.offset := by
  have hordered := List.pairwise_filterMap.1 (ofSource_tiling source).pairwise
  refine List.pairwise_filterMap.2 (hordered.imp fun {a b} hab c hc d hd => ?_)
  cases a <;> cases hc
  cases b <;> cases hd
  exact hab _ rfl _ rfl

theorem comments_sorted (hlines : source.count newline + 1 < 2 ^ 32) :
    (ofSource source).comments.Pairwise fun b c => b.position.line ≤ c.position.line := by
  refine (comments_ordered source).imp_of_mem fun hb hc hbc => ?_
  rw [UInt32.le_iff_toNat_le, comment_line_eq hlines hb, comment_line_eq hlines hc]
  exact source.lineNumber_mono (Nat.le_trans (Nat.le_add_right _ _) hbc)

end LexedSource

end DocLint
