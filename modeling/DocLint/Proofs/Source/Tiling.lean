import DocLint.Proofs.Source.TokenPlace
import DocLint.Proofs.Text.Place
import Mathlib

/-!
# Tokens and comments tile the source text

The lexer never goes back and never looks away: whatever it reads becomes the text of a token or of
a comment, or is one of the few bytes between them.  The tokens and comments of a source text
therefore stand in it one after the other, and all that they leave uncovered are blanks, line ends
and the backslashes of escaped line ends, be the text well formed or not.

* `Tiling`: a text made up of stretches and of the gaps between them.
* `step_covers`, `run_covers`: what a step and a run read is tiled by what they yield.
* `ofSource_tiles`: the tiling of a whole source text, as offsets, lines and columns.
-/

namespace DocLint

open Bytes

/-- Bytes of a source text that the lexer yields, and where they begin. -/
structure Stretch where
  text : Bytes
  position : Position
  offset : Nat
deriving DecidableEq, Repr

/-- The bytes that an item covers; a fault covers none. -/
def LexItem.stretch? : LexItem → Option Stretch
  | token t => some ⟨t.text, t.position, t.offset⟩
  | comment c => some ⟨c.text, c.position, c.offset⟩
  | fault _ => none

/-- Bytes that the lexer passes over as a whole: a blank, or a line end that may be escaped. -/
inductive IsGap : Bytes → Prop
  | blank {c : UInt8} (h : isInlineBlank c = true) : IsGap [c]
  | lineEnd : IsGap [newline]
  | escaped : IsGap [backslash, newline]
  | escapedReturn : IsGap [backslash, carriageReturn, newline]

/-- The text that follows `front` consists of the stretches, in order, and of gaps between them. -/
inductive Tiling : Bytes → List Stretch → Bytes → Prop
  | nil (front : Bytes) : Tiling front [] []
  | gap {front gap text : Bytes} {stretches : List Stretch} (h : IsGap gap)
      (rest : Tiling (front ++ gap) stretches text) : Tiling front stretches (gap ++ text)
  | stretch {front text : Bytes} {stretches : List Stretch} (piece : Bytes)
      (rest : Tiling (front ++ piece) stretches text) :
      Tiling front (⟨piece, Position.after {} front, front.length⟩ :: stretches) (piece ++ text)

namespace Tiling

variable {front text : Bytes} {stretches : List Stretch}

theorem append {more : List Stretch} {behind : Bytes} (h : Tiling front stretches text)
    (hmore : Tiling (front ++ text) more behind) :
    Tiling front (stretches ++ more) (text ++ behind) := by
  induction h with
  | nil front => simpa using hmore
  | gap h _ ih =>
      rw [List.append_assoc]
      apply Tiling.gap h
      apply ih
      rwa [List.append_assoc]
  | stretch piece _ ih =>
      rw [List.append_assoc]
      apply Tiling.stretch piece
      apply ih
      rwa [List.append_assoc]

/-- A run of blanks and line ends needs no stretches. -/
theorem of_blanks (front : Bytes) {blanks : Bytes}
    (h : ∀ c ∈ blanks, isInlineBlank c = true ∨ c = newline) : Tiling front [] blanks := by
  induction blanks generalizing front with
  | nil => exact .nil front
  | cons c rest ih =>
      have hrest : Tiling (front ++ [c]) [] rest :=
        ih _ fun d hd => h d (List.mem_cons_of_mem c hd)
      have hgap : IsGap [c] := by
        rcases h c List.mem_cons_self with hc | rfl
        · exact .blank hc
        · exact .lineEnd
      exact .gap hgap hrest

/-- Each stretch stands in the text where it says. -/
theorem stands (h : Tiling front stretches text) {s : Stretch} (hs : s ∈ stretches) :
    ∃ before behind, front ++ text = before ++ (s.text ++ behind) ∧
      s.position = Position.after {} before ∧ s.offset = before.length := by
  induction h with
  | nil => cases hs
  | @gap front gap text stretches _ _ ih =>
      rw [← List.append_assoc]
      exact ih hs
  | @stretch front text stretches piece _ ih =>
      rcases List.mem_cons.1 hs with rfl | hs
      · exact ⟨front, text, rfl, rfl, rfl⟩
      · rw [← List.append_assoc]
        exact ih hs

theorem length_front_le (h : Tiling front stretches text) {s : Stretch} (hs : s ∈ stretches) :
    front.length ≤ s.offset := by
  induction h with
  | nil => cases hs
  | gap _ _ ih =>
      have := ih hs
      rw [List.length_append] at this
      omega
  | stretch piece _ ih =>
      rcases List.mem_cons.1 hs with rfl | hs
      · exact Nat.le_refl _
      · have := ih hs
        rw [List.length_append] at this
        omega

/-- Each stretch ends before the next one begins. -/
theorem pairwise (h : Tiling front stretches text) :
    stretches.Pairwise fun s u => s.offset + s.text.length ≤ u.offset := by
  induction h with
  | nil => exact .nil
  | gap _ _ ih => exact ih
  | stretch piece rest ih =>
      refine List.pairwise_cons.2 ⟨fun u hu => ?_, ih⟩
      have := rest.length_front_le hu
      rwa [List.length_append] at this

end Tiling

/-- The byte at an offset is one that the lexer passes over: a blank, a line end, or the backslash of
an escaped line end. -/
def IsPassedOver (source : Bytes) (k : Nat) : Prop :=
  ∃ c, source[k]? = some c ∧ (isInlineBlank c = true ∨ c = newline ∨
    c = backslash ∧ (source[k + 1]? = some newline ∨
      source[k + 1]? = some carriageReturn ∧ source[k + 2]? = some newline))

/-- Every byte of a gap is passed over. -/
theorem IsGap.isPassedOver {gap : Bytes} (h : IsGap gap) (front behind : Bytes) {k : Nat}
    (hfront : front.length ≤ k) (hk : k < front.length + gap.length) :
    IsPassedOver (front ++ (gap ++ behind)) k := by
  obtain ⟨j, rfl⟩ := Nat.exists_eq_add_of_le hfront
  have hget (i : Nat) : (front ++ (gap ++ behind))[front.length + i]? = (gap ++ behind)[i]? := by
    rw [List.getElem?_append_right (Nat.le_add_right _ _), Nat.add_sub_cancel_left]
  unfold IsPassedOver
  simp only [Nat.add_assoc, hget]
  have hblank : isInlineBlank carriageReturn = true := by decide
  cases h with
  | blank hc =>
      obtain rfl : j = 0 := by simp at hk; omega
      exact ⟨_, rfl, .inl hc⟩
  | lineEnd =>
      obtain rfl : j = 0 := by simp at hk; omega
      exact ⟨_, rfl, .inr (.inl rfl)⟩
  | escaped =>
      obtain rfl | rfl : j = 0 ∨ j = 1 := by simp at hk; omega
      · exact ⟨_, rfl, .inr (.inr ⟨rfl, .inl rfl⟩)⟩
      · exact ⟨_, rfl, .inr (.inl rfl)⟩
  | escapedReturn =>
      obtain rfl | rfl | rfl : j = 0 ∨ j = 1 ∨ j = 2 := by simp at hk; omega
      · exact ⟨_, rfl, .inr (.inr ⟨rfl, .inr ⟨rfl, rfl⟩⟩)⟩
      · exact ⟨_, rfl, .inl hblank⟩
      · exact ⟨_, rfl, .inr (.inl rfl)⟩

/-- A byte that no stretch covers is passed over. -/
theorem Tiling.isPassedOver {front text : Bytes} {stretches : List Stretch}
    (h : Tiling front stretches text) {k : Nat} (hfront : front.length ≤ k)
    (hk : k < (front ++ text).length)
    (huncovered : ∀ s ∈ stretches, k < s.offset ∨ s.offset + s.text.length ≤ k) :
    IsPassedOver (front ++ text) k := by
  induction h with
  | nil => simp at hk; omega
  | @gap front gap text stretches hgap _ ih =>
      by_cases hin : k < front.length + gap.length
      · exact hgap.isPassedOver front text hfront hin
      · rw [← List.append_assoc] at hk ⊢
        refine ih ?_ hk huncovered
        rw [List.length_append]
        omega
  | @stretch front text stretches piece _ ih =>
      have hpast : front.length + piece.length ≤ k := by
        rcases huncovered _ List.mem_cons_self with hlt | hle
        · exact absurd hfront (Nat.not_le.2 hlt)
        · exact hle
      rw [← List.append_assoc] at hk ⊢
      refine ih ?_ hk fun s hs => huncovered s (List.mem_cons_of_mem _ hs)
      rwa [List.length_append]

/-! ### What the lexer reads -/

namespace ByteCursor

/-- The cursor stands right behind a text. -/
def At (front : Bytes) (cursor : ByteCursor) : Prop :=
  cursor.position = Position.after {} front ∧ cursor.offset = front.length

theorem at_skip {front : Bytes} {cursor : ByteCursor} (h : cursor.At front) (n : Nat) :
    (cursor.skip n).At (front ++ cursor.rest.take n) := by
  induction n generalizing front cursor with
  | zero => simpa [skip] using h
  | succ n ih =>
      unfold skip
      split
      next hrest => simpa [hrest] using h
      next c r hrest =>
        obtain ⟨hposition, hoffset⟩ := h
        have hstep : (cursor.step c r).At (front ++ [c]) := by
          refine ⟨?_, ?_⟩
          · rw [step, hposition, Position.after_append]
            rfl
          · rw [step, hoffset, List.length_append]
            rfl
        have hskip := ih hstep
        rw [hrest, List.take_succ_cons]
        simpa [step] using hskip

end ByteCursor

/-- Between two places of the cursor the text is tiled by the items. -/
def Covers (items : List LexItem) (cursor next : ByteCursor) : Prop :=
  ∀ front, cursor.At front → ∃ text, cursor.rest = text ++ next.rest ∧ next.At (front ++ text) ∧
    Tiling front (items.filterMap LexItem.stretch?) text

namespace Covers

variable {items more : List LexItem} {cursor next last : ByteCursor}

theorem refl (cursor : ByteCursor) : Covers [] cursor cursor := by
  intro front h
  exact ⟨[], rfl, by simpa using h, .nil front⟩

theorem trans (h : Covers items cursor next) (hmore : Covers more next last) :
    Covers (items ++ more) cursor last := by
  intro front hfront
  obtain ⟨text, htext, hnext, htiling⟩ := h front hfront
  obtain ⟨behind, hbehind, hlast, hrest⟩ := hmore _ hnext
  refine ⟨text ++ behind, ?_, ?_, ?_⟩
  · rw [htext, hbehind, List.append_assoc]
  · rwa [← List.append_assoc]
  · rw [List.filterMap_append]
    exact htiling.append hrest

/-- Skipping is covered where what is skipped is tiled. -/
theorem of_skip (n : Nat)
    (h : ∀ front, cursor.At front →
      Tiling front (items.filterMap LexItem.stretch?) (cursor.rest.take n)) :
    Covers items cursor (cursor.skip n) := by
  intro front hfront
  refine ⟨cursor.rest.take n, ?_, ByteCursor.at_skip hfront n, h front hfront⟩
  rw [ByteCursor.rest_skip, List.take_append_drop]

/-- Items without bytes cover no way at all. -/
theorem of_marks {here : ByteCursor}
    (h : ∀ item ∈ items, (∃ f, item = .fault f) ∨ ∃ kind, item = .token (here.mark kind)) :
    Covers items here here := by
  induction items with
  | nil => exact refl here
  | cons item items ih =>
      have hrest := ih fun i hi => h i (List.mem_cons_of_mem item hi)
      have hfirst : Covers [item] here here := by
        intro front hfront
        refine ⟨[], rfl, by simpa using hfront, ?_⟩
        rcases h item List.mem_cons_self with ⟨f, rfl⟩ | ⟨kind, rfl⟩
        · exact .nil front
        · have hmark : Tiling (front ++ []) [] [] := .nil _
          have hstretch := Tiling.stretch [] hmark
          rw [← hfront.1, ← hfront.2] at hstretch
          exact hstretch
      exact hfirst.trans hrest

theorem blanks (n : Nat)
    (h : ∀ c ∈ cursor.rest.take n, isInlineBlank c = true ∨ c = newline) :
    Covers [] cursor (cursor.skip n) :=
  of_skip n fun front _ => .of_blanks front h

/-- A stretch of the text covers itself. -/
theorem piece {item : LexItem} (n : Nat)
    (h : item.stretch? = some ⟨cursor.rest.take n, cursor.position, cursor.offset⟩) :
    Covers [item] cursor (cursor.skip n) := by
  apply of_skip
  intro front hfront
  have hstretch := Tiling.stretch (cursor.rest.take n) (.nil (front ++ cursor.rest.take n))
  rw [← hfront.1, ← hfront.2, List.append_nil] at hstretch
  rw [List.filterMap_cons, h]
  exact hstretch

end Covers

/-- A carriage return at the end is all that a chomp takes away. -/
theorem chomp_append (s : Bytes) : s = chomp s ∨ s = chomp s ++ [carriageReturn] := by
  unfold chomp
  split
  next h =>
    have hne : s ≠ [] := by
      rintro rfl
      cases h
    have hlast : s.getLast hne = carriageReturn := by
      rw [List.getLast?_eq_some_getLast hne] at h
      exact Option.some.inj h
    right
    rw [← hlast, List.dropLast_append_getLast]
  · exact .inl rfl

theorem Covers.comment (cursor : ByteCursor) :
    Covers [.comment cursor.comment] cursor (cursor.skip (commentLength cursor.rest)) := by
  apply Covers.of_skip
  intro front hfront
  -- A carriage return that ends the comment belongs to the gap behind it.
  have hbehind : ∀ tail : Bytes, Tiling (front ++ cursor.comment.text) [] tail →
      Tiling front ([LexItem.comment cursor.comment].filterMap LexItem.stretch?)
        (cursor.comment.text ++ tail) := by
    intro tail htail
    have hstretch := Tiling.stretch cursor.comment.text htail
    rw [← hfront.1, ← hfront.2] at hstretch
    exact hstretch
  rcases chomp_append (cursor.rest.take (commentLength cursor.rest)) with htext | htext
  · have hall := hbehind [] (.nil _)
    rw [List.append_nil] at hall
    rw [htext]
    exact hall
  · rw [htext]
    refine hbehind [carriageReturn] (.of_blanks _ fun c hc => ?_)
    rw [List.mem_singleton] at hc
    subst hc
    exact .inl (by decide)

/-- What stands in front of a lexeme are gaps. -/
theorem tiling_gapLength : ∀ front s : Bytes, Tiling front [] (s.take (gapLength s))
  | front, [] => .nil front
  | front, c :: r => by
    unfold gapLength
    split
    next hblank => exact .gap (.blank hblank) (tiling_gapLength _ r)
    · split
      next hescape =>
        subst hescape
        cases r with
        | nil => exact .nil front
        | cons d q =>
            dsimp only
            split
            next hnewline =>
              subst hnewline
              exact .gap .escaped (tiling_gapLength _ q)
            · split
              next hreturn =>
                subst hreturn
                cases q with
                | nil => exact .nil front
                | cons e rest =>
                    dsimp only
                    split
                    next hnewline =>
                      subst hnewline
                      exact .gap .escapedReturn (tiling_gapLength _ rest)
                    · exact .nil front
              · exact .nil front
      · exact .nil front

theorem Covers.gaps (cursor : ByteCursor) :
    Covers [] cursor (cursor.skip (gapLength cursor.rest)) :=
  .of_skip _ fun front _ => tiling_gapLength front cursor.rest

namespace Lexer

theorem isInlineBlank_of_isIndentation {c : UInt8} (h : isIndentation c = true) :
    isInlineBlank c = true := by
  simp only [isIndentation, isInlineBlank, Bool.or_eq_true] at h ⊢
  exact .inl h

theorem layout_covers (cursor : ByteCursor) (levels : List Nat) (width : Nat) :
    Covers (layout cursor levels width).1 cursor cursor := by
  apply Covers.of_marks
  intro item hitem
  unfold layout at hitem
  split at hitem
  · exact .inr ⟨_, List.mem_singleton.1 hitem⟩
  · rcases List.mem_append.1 hitem with hitem | hitem
    · obtain ⟨_, -, rfl⟩ := List.mem_map.1 hitem
      exact .inr ⟨_, rfl⟩
    · split at hitem
      · cases hitem
      · exact .inl ⟨_, List.mem_singleton.1 hitem⟩

theorem optionalComment_covers (cursor : ByteCursor) :
    Covers (optionalComment cursor).1 cursor (optionalComment cursor).2 := by
  unfold optionalComment
  split
  · exact .comment cursor
  · exact .refl cursor

theorem optionalReturn_covers (cursor : ByteCursor) :
    Covers [] cursor (optionalReturn cursor) := by
  unfold optionalReturn
  split
  next h =>
    obtain ⟨r, hrest⟩ : ∃ r, cursor.rest = carriageReturn :: r := by
      cases hrest : cursor.rest with
      | nil => simp [hrest] at h
      | cons c r =>
          rw [hrest] at h
          cases h
          exact ⟨r, rfl⟩
    refine .blanks 1 fun c hc => ?_
    rw [hrest] at hc
    obtain rfl : c = carriageReturn := by simpa using hc
    exact .inl (by decide)
  · exact .refl cursor

theorem newline_covers {here : ByteCursor} {r : Bytes} (hrest : here.rest = newline :: r) :
    Covers [] here (here.skip 1) := by
  refine .blanks 1 fun c hc => ?_
  rw [hrest] at hc
  exact .inr (by simpa using hc)

theorem startLine_covers (l : Lexer) : Covers l.startLine.1 l.cursor l.startLine.2.cursor := by
  have hindentation : Covers [] l.cursor
      (l.cursor.skip (l.cursor.rest.takeWhile isIndentation).length) := by
    refine .blanks _ fun c hc => .inl (isInlineBlank_of_isIndentation ?_)
    rw [← List.prefix_iff_eq_take.1 (List.takeWhile_prefix isIndentation)] at hc
    exact List.all_eq_true.1 List.all_takeWhile c hc
  have hcomment := optionalComment_covers
    (l.cursor.skip (l.cursor.rest.takeWhile isIndentation).length)
  have hreturn := optionalReturn_covers
    (optionalComment (l.cursor.skip (l.cursor.rest.takeWhile isIndentation).length)).2
  have hhere := (hindentation.trans hcomment).trans hreturn
  rw [List.nil_append, List.append_nil] at hhere
  dsimp only [startLine]
  split
  · exact hhere
  next c r hrest =>
    split
    next hc =>
      subst hc
      have hbehind := hhere.trans (newline_covers hrest)
      rwa [List.append_nil] at hbehind
    · exact hhere.trans (layout_covers _ _ _)

theorem finish_covers (l : Lexer) (here : ByteCursor) :
    Covers (l.finish here).1 here (l.finish here).2.cursor := by
  apply Covers.of_marks
  intro item hitem
  simp only [finish, List.mem_append, List.mem_map, List.mem_singleton] at hitem
  rcases hitem with ((hfault | hline) | ⟨_, -, rfl⟩) | rfl
  · split at hfault
    · exact .inl ⟨_, List.mem_singleton.1 hfault⟩
    · cases hfault
  · split at hline
    · exact .inr ⟨_, List.mem_singleton.1 hline⟩
    · cases hline
  · exact .inr ⟨_, rfl⟩
  · exact .inr ⟨_, rfl⟩

theorem endLine_covers (l : Lexer) {here : ByteCursor} {r : Bytes}
    (hrest : here.rest = newline :: r) :
    Covers (l.endLine here).1 here (l.endLine here).2.cursor := by
  unfold endLine
  split
  · exact newline_covers hrest
  · split
    · exact .piece 1 rfl
    · exact newline_covers hrest

theorem readLexeme_covers (l : Lexer) (here : ByteCursor) (c : UInt8) (r : Bytes) :
    Covers (l.readLexeme here c r).1 here (l.readLexeme here c r).2.cursor := by
  dsimp only [readLexeme]
  refine .trans ?_ (.piece _ rfl)
  apply Covers.of_marks
  intro item hitem
  split at hitem
  · cases hitem
  · exact .inl ⟨_, List.mem_singleton.1 hitem⟩

theorem resume_covers (l : Lexer) : Covers l.resume.1 l.cursor l.resume.2.cursor := by
  have hgaps := Covers.gaps l.cursor
  dsimp only [resume]
  split
  · exact hgaps.trans (finish_covers l _)
  next c r hrest =>
    split
    · exact hgaps.trans (.comment _)
    · split
      next hc =>
        subst hc
        exact hgaps.trans (endLine_covers l hrest)
      · exact hgaps.trans (readLexeme_covers l _ c r)

/-- What a step reads is tiled by what it yields. -/
theorem step_covers (l : Lexer) : Covers l.step.1 l.cursor l.step.2.cursor := by
  unfold step
  split
  · exact startLine_covers l
  · exact resume_covers l

@[simp] theorem finished_startLine (l : Lexer) : l.startLine.2.finished = l.finished := by
  dsimp only [startLine]
  split
  · rfl
  · split
    · rfl
    · rfl

@[simp] theorem finished_endLine (l : Lexer) (here : ByteCursor) :
    (l.endLine here).2.finished = l.finished := by
  unfold endLine
  split
  · rfl
  · split
    · rfl
    · rfl

/-- The end of the file is announced where nothing is left to read. -/
theorem rest_step_of_finished {l : Lexer} (running : l.finished = false)
    (h : l.step.2.finished = true) : l.step.2.cursor.rest = [] := by
  by_cases hstart : (l.lineStart && l.depth == 0) = true
  · rw [step, if_pos hstart, finished_startLine, running] at h
    cases h
  · rw [step, if_neg hstart] at h ⊢
    cases hrest : (l.cursor.skip (gapLength l.cursor.rest)).rest with
    | nil =>
        simp only [resume, hrest]
        exact hrest
    | cons c r =>
        exfalso
        simp only [resume, hrest] at h
        split at h
        · rw [running] at h
          cases h
        · split at h
          · rw [finished_endLine, running] at h
            cases h
          · rw [readLexeme, running] at h
            cases h

/-- What a run reads is tiled by what it yields. -/
theorem run_covers (l : Lexer) : Covers l.run.1 l.cursor l.run.2.cursor := by
  fun_induction run l with
  | case1 l _ => exact .refl l.cursor
  | case2 l _ rest ih => exact (step_covers l).trans ih

/-- A run reads everything. -/
theorem rest_run {l : Lexer} (h : l.finished = true → l.cursor.rest = []) :
    l.run.2.cursor.rest = [] := by
  fun_induction run l with
  | case1 l hfinished => exact h hfinished
  | case2 l hrunning rest ih =>
      exact ih (rest_step_of_finished (by simpa using hrunning))

end Lexer

/-! ### Lines and columns -/

/-- The position that belongs to an offset: there are as many lines above as there are newlines in
front, and as many columns to the left as there are bytes since the last newline. -/
def Position.IsAt (p : Position) (source : Bytes) (k : Nat) : Prop :=
  p.line.toNat = 1 + (source.take k).count newline ∧
    p.column.toNat = 1 + ((source.take k).reverse.takeWhile fun c => c != newline).length

namespace Position

/-- The position after a text counts its newlines and the bytes behind the last one. -/
theorem after_eq_ofNat (s : Bytes) :
    after {} s = ⟨UInt32.ofNat (1 + s.count newline),
      UInt32.ofNat (1 + (s.reverse.takeWhile fun c => c != newline).length)⟩ := by
  induction s using List.reverseRecOn with
  | nil => rfl
  | append_singleton s c ih =>
      rw [after_append, ih, after_cons, after_nil, List.reverse_concat]
      by_cases hc : c = newline
      · subst hc
        simp [step, List.count_append, UInt32.ofNat_add, UInt32.add_assoc]
      · have hcount : [c].count newline = 0 := List.count_eq_zero.2 (by simpa using Ne.symm hc)
        simp [step, right, hc, List.count_append, hcount, UInt32.ofNat_add, UInt32.add_assoc]

theorem after_isAt {source front behind : Bytes} (hsource : source = front ++ behind)
    (hsize : source.length < 2 ^ 31) : (after {} front).IsAt source front.length := by
  have hfront : front.length ≤ source.length := by
    rw [hsource, List.length_append]
    omega
  have hcount := List.count_le_length (a := newline) (l := front)
  have hsince := (List.takeWhile_prefix (fun c => c != newline) (l := front.reverse)).length_le
  rw [List.length_reverse] at hsince
  rw [IsAt, hsource, List.take_left, after_eq_ofNat, UInt32.toNat_ofNat', UInt32.toNat_ofNat']
  exact ⟨Nat.mod_eq_of_lt (by omega), Nat.mod_eq_of_lt (by omega)⟩

end Position

/-! ### Whole source texts -/

namespace LexedSource

/-- The tokens and comments of a source text tile it. -/
structure Tiles (source : Bytes) (s : LexedSource) : Prop where
  /-- A token has the bytes at its offset, and begins and ends at the positions of its offsets. -/
  token_place : ∀ t ∈ s.tokens, OccursAt t.text t.offset source ∧
    t.position.IsAt source t.offset ∧ t.stop.IsAt source (t.offset + t.text.length)
  /-- A comment has the bytes at its offset, and begins at the position of its offset. -/
  comment_place : ∀ c ∈ s.comments, OccursAt c.text c.offset source ∧
    c.position.IsAt source c.offset
  /-- A token ends before the next one begins. -/
  tokens_ordered : s.tokens.Pairwise fun t u => t.offset + t.text.length ≤ u.offset
  /-- A comment ends before the next one begins. -/
  comments_ordered : s.comments.Pairwise fun c d => c.offset + c.text.length ≤ d.offset
  /-- No token shares a byte with a comment. -/
  apart : ∀ t ∈ s.tokens, ∀ c ∈ s.comments,
    t.offset + t.text.length ≤ c.offset ∨ c.offset + c.text.length ≤ t.offset
  /-- Bytes of no token and no comment are blanks, line ends and backslashes that escape line
  ends. -/
  uncovered : ∀ k < source.length,
    (∀ t ∈ s.tokens, k < t.offset ∨ t.offset + t.text.length ≤ k) →
      (∀ c ∈ s.comments, k < c.offset ∨ c.offset + c.text.length ≤ k) → IsPassedOver source k

theorem mem_comments_iff {s : LexedSource} {c : Comment} :
    c ∈ s.comments ↔ LexItem.comment c ∈ s.items := by
  rw [comments, List.mem_filterMap]
  constructor
  · rintro ⟨item, hitem, hcomment⟩
    cases item with
    | token t => cases hcomment
    | comment c' => cases hcomment; exact hitem
    | fault f => cases hcomment
  · exact fun h => ⟨_, h, rfl⟩

/-- The items of a source text tile it, and the lexer ends at its last offset. -/
theorem ofSource_covers (source : Bytes) :
    (ofSource source).lexer.cursor.offset = source.length ∧
      Tiling [] ((ofSource source).items.filterMap LexItem.stretch?) source := by
  have hcovers := Lexer.run_covers (Lexer.ofSource source)
  obtain ⟨text, htext, ⟨-, hoffset⟩, htiling⟩ := hcovers [] ⟨rfl, rfl⟩
  have hrest : (Lexer.ofSource source).run.2.cursor.rest = [] :=
    Lexer.rest_run fun h => by cases h
  rw [hrest, List.append_nil] at htext
  have hsource : source = text := htext
  subst hsource
  exact ⟨hoffset, htiling⟩

theorem ofSource_tiling (source : Bytes) :
    Tiling [] ((ofSource source).items.filterMap LexItem.stretch?) source :=
  (ofSource_covers source).2

/-- The end of a text is found if a word can count its bytes. -/
theorem ofSource?_eq_some {source : Bytes} (h : source.length < 2 ^ 32) :
    ofSource? source = some (ofSource source) := by
  have hend : (ofSource source).lexer.cursor.isEndOf source.length = true := by
    rw [ByteCursor.isEndOf, ByteCursor.offsetWord, (ofSource_covers source).1,
      UInt32.toNat_ofNat', Nat.mod_eq_of_lt h]
    exact decide_eq_true le_rfl
  exact if_pos hend

/-- Of a longer text no place is taken for the end. -/
theorem ofSource?_eq_none {source : Bytes} (h : 2 ^ 32 ≤ source.length) : ofSource? source = none := by
  have hbeyond : ¬ source.length ≤ (ofSource source).lexer.cursor.offsetWord.toNat :=
    Nat.not_le.2 (Nat.lt_of_lt_of_le (UInt32.toNat_lt _) h)
  rw [ofSource?, ByteCursor.isEndOf, decide_eq_false hbeyond]
  rfl

/-- A token ends before the next one begins. -/
theorem pairwise_tokens (source : Bytes) :
    (ofSource source).tokens.Pairwise fun t u => t.offset + t.text.length ≤ u.offset := by
  have hordered := List.pairwise_filterMap.1 (ofSource_tiling source).pairwise
  refine List.pairwise_filterMap.2 (hordered.imp fun {a b} hab t ht u hu => ?_)
  cases a <;> cases ht
  cases b <;> cases hu
  exact hab _ rfl _ rfl

/-- A stretch that stands in a source text small enough for positions has their lines and columns. -/
theorem stretch_place {source : Bytes} (hsize : source.length < 2 ^ 31) {stretches : List Stretch}
    (h : Tiling [] stretches source) {s : Stretch} (hs : s ∈ stretches) :
    OccursAt s.text s.offset source ∧ s.position.IsAt source s.offset ∧
      (s.position.after s.text).IsAt source (s.offset + s.text.length) := by
  obtain ⟨before, behind, hsource, hposition, hoffset⟩ := h.stands hs
  rw [List.nil_append] at hsource
  rw [hposition, hoffset]
  refine ⟨⟨?_, ?_⟩, Position.after_isAt hsource hsize, ?_⟩
  · rw [hsource, List.length_append]
    omega
  · rw [hsource, List.drop_left]
    exact List.prefix_append s.text behind
  · rw [← Position.after_append, ← List.length_append]
    rw [← List.append_assoc] at hsource
    exact Position.after_isAt hsource hsize

/-- The tokens and comments of a source text, well formed or not, tile it: they stand in it in order,
at the positions of their offsets, and leave no byte uncovered but blanks and line ends. -/
theorem ofSource_tiles {source : Bytes} (hsize : source.length < 2 ^ 31) :
    (ofSource source).Tiles source := by
  have htiling := ofSource_tiling source
  have hordered := List.pairwise_filterMap.1 htiling.pairwise
  have hmem {item : LexItem} {s : Stretch} (hitem : item ∈ (ofSource source).items)
      (hs : item.stretch? = some s) :
      s ∈ (ofSource source).items.filterMap LexItem.stretch? :=
    List.mem_filterMap.2 ⟨item, hitem, hs⟩
  constructor
  case token_place =>
    intro t ht
    exact stretch_place hsize htiling (hmem (mem_tokens_iff.1 ht) rfl)
  case comment_place =>
    intro c hc
    obtain ⟨hoccurs, hposition, -⟩ :=
      stretch_place hsize htiling (hmem (mem_comments_iff.1 hc) rfl)
    exact ⟨hoccurs, hposition⟩
  case tokens_ordered => exact pairwise_tokens source
  case comments_ordered =>
    refine List.pairwise_filterMap.2 (hordered.imp fun {a b} hab c hc d hd => ?_)
    cases a <;> cases hc
    cases b <;> cases hd
    exact hab _ rfl _ rfl
  case apart =>
    intro t ht c hc
    -- Being apart does not depend on which of the two comes first.
    let apart (a b : LexItem) : Prop := ∀ s, a.stretch? = some s → ∀ u, b.stretch? = some u →
      s.offset + s.text.length ≤ u.offset ∨ u.offset + u.text.length ≤ s.offset
    have : Std.Symm apart := ⟨fun a b h s hs u hu => (h u hu s hs).symm⟩
    have hpairwise : (ofSource source).items.Pairwise apart :=
      hordered.imp fun hab s hs u hu => .inl (hab s hs u hu)
    exact hpairwise.forall (mem_tokens_iff.1 ht) (mem_comments_iff.1 hc) (by simp)
      _ rfl _ rfl
  case uncovered =>
    intro k hk htokens hcomments
    have hpassed := htiling.isPassedOver (Nat.zero_le k) hk fun s hs => by
      obtain ⟨item, hitem, hstretch⟩ := List.mem_filterMap.1 hs
      cases item with
      | token t =>
          cases hstretch
          exact htokens t (mem_tokens_iff.2 hitem)
      | comment c =>
          cases hstretch
          exact hcomments c (mem_comments_iff.2 hitem)
      | fault f => cases hstretch
    exact hpassed

/-- A text with an escaped line end, a comment that ends in a carriage return, a null byte, a stray
backslash and a string without its end. -/
def raggedSource : Bytes :=
  ascii "if x: # why\r\n\ty = \\\n  1\n  \x00 z \\ 'open\n"

theorem ofSource_tiles_raggedSource :
    raggedSource.length < 2 ^ 31 ∧ (ofSource raggedSource).Tiles raggedSource := by
  have hsize : raggedSource.length < 2 ^ 31 := by cbv
  exact ⟨hsize, ofSource_tiles hsize⟩

end LexedSource

end DocLint
