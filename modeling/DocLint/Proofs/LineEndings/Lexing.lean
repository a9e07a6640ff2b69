import DocLint.Proofs.LineEndings.Lexemes
import DocLint.Proofs.Source.TokenPlace
import Mathlib

/-!
# Line ends and the lexer

A text is read alike whether its lines end with a newline or with a return and a newline.  The two
lexers go on in step; in between the second one may have read the return already when the first one
is in front of the newline.

* `ByteCursor.Follows`: where the two lexers are.
* `step_follows`: one step of both.
* `ofSource_withReturns`: tokens, comments and faults of the whole text.
* `faults_withReturns_continuedSource`: a literal for which it makes a difference.
-/

namespace DocLint

open Bytes

namespace ByteCursor

/-- Both cursors are at the same place. -/
structure Matches (c c' : ByteCursor) : Prop where
  plain : carriageReturn ∉ c.rest
  rest_eq : c'.rest = withReturns c.rest
  position_eq : c'.position = c.position
  blankLine_eq : c'.blankLine = c.blankLine

/-- Both cursors are in front of the same newline, the second one behind the return. -/
def PastReturn (c c' : ByteCursor) : Prop :=
  ∃ r, carriageReturn ∉ r ∧ c.rest = newline :: r ∧ c'.rest = newline :: withReturns r ∧
    c'.position.line = c.position.line

/-- The second cursor is at the place of the first, or behind the return in front of it. -/
def Follows (c c' : ByteCursor) : Prop := c.Matches c' ∨ c.PastReturn c'

variable {c c' : ByteCursor}

/-- Behind the newline both cursors are at the same place. -/
theorem PastReturn.skip_one (h : c.PastReturn c') : (c.skip 1).Matches (c'.skip 1) := by
  obtain ⟨r, hplain, hrest, hrest', hline⟩ := h
  have hskip : c.skip 1 = c.pass [newline] r := skip_eq (s := [newline]) hrest
  have hskip' : c'.skip 1 = c'.pass [newline] (withReturns r) := skip_eq (s := [newline]) hrest'
  rw [hskip, hskip']
  refine ⟨hplain, rfl, ?_, rfl⟩
  show Position.mk (c'.position.line + 1) 1 = Position.mk (c.position.line + 1) 1
  rw [hline]

theorem skip_take {n : Nat} (hn : n ≤ c.rest.length) :
    c.skip n = c.pass (c.rest.take n) (c.rest.drop n) := by
  have hskip := skip_eq (List.take_append_drop n c.rest).symm
  rwa [List.length_take_of_le hn] at hskip

/-- Skipping as far in both texts leads to the same place again. -/
theorem Matches.skip {n : Nat} (h : c.Matches c') (hn : n ≤ c.rest.length) :
    (c.skip n).Matches (c'.skip (withReturns (c.rest.take n)).length) := by
  have hrest' : c'.rest = withReturns (c.rest.take n) ++ withReturns (c.rest.drop n) := by
    rw [h.rest_eq, ← withReturns_append, List.take_append_drop]
  rw [skip_take hn, skip_eq hrest']
  refine ⟨fun hmem => h.plain (List.mem_of_mem_drop hmem), rfl, ?_, ?_⟩
  · show c'.position.after _ = c.position.after _
    rw [h.position_eq, Position.after_withReturns]
  · show blankAfter c'.blankLine _ = blankAfter c.blankLine _
    rw [h.blankLine_eq, blankAfter_withReturns]

/-- One byte further in the second text leads past the return. -/
theorem Matches.skip_return {n : Nat} (h : c.Matches c') (hn : n ≤ c.rest.length)
    (hnext : (c.rest.drop n).head? = some newline) :
    (c.skip n).PastReturn (c'.skip ((withReturns (c.rest.take n)).length + 1)) := by
  obtain ⟨r, hr⟩ : ∃ r, c.rest.drop n = newline :: r := by
    obtain ⟨d, r, hdrop⟩ := List.exists_cons_of_ne_nil (l := c.rest.drop n) fun hnil => by
      rw [hnil] at hnext
      cases hnext
    rw [hdrop] at hnext
    cases hnext
    exact ⟨r, hdrop⟩
  have hrest' : c'.rest =
      (withReturns (c.rest.take n) ++ [carriageReturn]) ++ newline :: withReturns r := by
    rw [h.rest_eq, ← List.take_append_drop n c.rest, hr, withReturns_append, withReturns_newline,
      List.append_assoc, ← hr, List.take_append_drop]
    rfl
  have hskip' := skip_eq hrest'
  rw [List.length_append, List.length_singleton] at hskip'
  rw [skip_take hn, hr, hskip']
  refine ⟨r, fun hmem => h.plain ?_, rfl, rfl, ?_⟩
  · rw [← List.take_append_drop n c.rest, hr]
    exact List.mem_append_right _ (List.mem_cons_of_mem _ hmem)
  · show (c'.position.after (_ ++ [carriageReturn])).line = (c.position.after _).line
    rw [Position.after_append, h.position_eq, Position.after_withReturns]
    rfl

theorem Matches.skip_reaches {n n' : Nat} (h : c.Matches c') (hn : n ≤ c.rest.length)
    (hreaches : Reaches c.rest n n') : (c.skip n).Follows (c'.skip n') := by
  rcases hreaches with rfl | ⟨rfl, hnext⟩
  · exact .inl (h.skip hn)
  · exact .inr (h.skip_return hn hnext)

/-- Blanks are passed over alike; a newline behind them is reached past the return. -/
theorem Matches.skip_gap (h : c.Matches c') :
    (c.skip (gapLength c.rest)).Matches (c'.skip (gapLength c'.rest)) ∧
        (c.skip (gapLength c.rest)).rest.head? ≠ some newline ∨
      (c.skip (gapLength c.rest)).PastReturn (c'.skip (gapLength c'.rest)) := by
  have hgap := gapLength_withReturns h.plain
  rw [← h.rest_eq] at hgap
  rw [hgap, rest_skip]
  by_cases hnext : (c.rest.drop (gapLength c.rest)).head? = some newline
  · rw [if_pos hnext]
    exact .inr (h.skip_return (gapLength_le _) hnext)
  · rw [if_neg hnext]
    exact .inl ⟨h.skip (gapLength_le _), hnext⟩

/-- In front of a newline there are no blanks. -/
theorem PastReturn.skip_gap (h : c.PastReturn c') :
    (c.skip (gapLength c.rest)).PastReturn (c'.skip (gapLength c'.rest)) := by
  obtain ⟨r, hplain, hrest, hrest', hline⟩ := h
  have hgap (r : Bytes) : gapLength (newline :: r) = 0 := gapLength_of_ne (by decide) (by decide) r
  rw [hrest, hrest', hgap, hgap]
  exact ⟨r, hplain, hrest, hrest', hline⟩

/-- A comment is the same in both texts, and ends in front of the newline, past the return. -/
theorem Matches.comment (h : c.Matches c') :
    (c'.comment.text = c.comment.text ∧ c'.comment.position = c.comment.position ∧
        c'.comment.ownLine = c.comment.ownLine) ∧
      ((c.skip (commentLength c.rest)).Matches (c'.skip (commentLength c'.rest)) ∧
          (c.skip (commentLength c.rest)).rest = [] ∨
        (c.skip (commentLength c.rest)).PastReturn (c'.skip (commentLength c'.rest))) := by
  suffices htext : c'.comment.text = c.comment.text ∧
      ((c.skip (commentLength c.rest)).Matches (c'.skip (commentLength c'.rest)) ∧
          (c.skip (commentLength c.rest)).rest = [] ∨
        (c.skip (commentLength c.rest)).PastReturn (c'.skip (commentLength c'.rest))) from
    ⟨⟨htext.1, h.position_eq, h.blankLine_eq⟩, htext.2⟩
  show chomp (c'.rest.take (commentLength c'.rest)) = chomp (c.rest.take (commentLength c.rest)) ∧ _
  rcases exists_firstLine c.rest with hlast | ⟨u, r, hrest, hu⟩
  · have hrest' : c'.rest = c.rest := by rw [h.rest_eq, withReturns_eq_self hlast]
    have hskip := h.skip (Nat.le_refl _)
    rw [List.take_length, withReturns_eq_self hlast] at hskip
    rw [hrest', commentLength_eq_length hlast]
    exact ⟨rfl, .inl ⟨hskip, by rw [rest_skip, List.drop_length]⟩⟩
  · have hplain : carriageReturn ∉ u := fun hmem => h.plain (by
      rw [hrest]
      exact List.mem_append_left _ hmem)
    have hlength := commentLength_append hu r
    rw [← hrest] at hlength
    have hrest' : c'.rest = (u ++ [carriageReturn]) ++ newline :: withReturns r := by
      rw [h.rest_eq, hrest, withReturns_append, withReturns_eq_self hu, withReturns_newline,
        List.append_assoc]
      rfl
    have hlength' : commentLength c'.rest = u.length + 1 := by
      rw [hrest', commentLength_append, List.length_append, List.length_singleton]
      rw [List.mem_append, not_or]
      exact ⟨hu, by decide⟩
    have htake : c.rest.take u.length = u := by rw [hrest, List.take_left]
    have htake' : c'.rest.take (u.length + 1) = u ++ [carriageReturn] := by
      rw [hrest', ← List.length_singleton (a := carriageReturn), ← List.length_append,
        List.take_left]
    have hskip := h.skip_return (n := u.length) (by rw [hrest, List.length_append]; omega)
      (by rw [hrest, List.drop_left]; rfl)
    rw [htake, withReturns_eq_self hu] at hskip
    rw [hlength, hlength', htake, htake', chomp_append_return, chomp_eq_self hplain]
    exact ⟨rfl, .inr hskip⟩

/-! ### The beginning of a line -/

theorem Matches.head?_eq_iff (h : c.Matches c') {d : UInt8} (hnewline : d ≠ newline)
    (hreturn : d ≠ carriageReturn) : c'.rest.head? = some d ↔ c.rest.head? = some d := by
  rw [h.rest_eq]
  cases c.rest with
  | nil => rfl
  | cons b r =>
      by_cases hb : b = newline
      · subst hb
        simp [Ne.symm hnewline, Ne.symm hreturn]
      · rw [withReturns_cons hb]
        rfl

/-- The indentation is the same, and both cursors go behind it. -/
theorem Follows.skip_indentation (h : c.Follows c') :
    c'.rest.takeWhile isIndentation = c.rest.takeWhile isIndentation ∧
      (c.skip (c.rest.takeWhile isIndentation).length).Follows
        (c'.skip (c'.rest.takeWhile isIndentation).length) := by
  rcases h with h | ⟨r, hplain, hrest, hrest', hline⟩
  · have hsame : c'.rest.takeWhile isIndentation = c.rest.takeWhile isIndentation := by
      rw [h.rest_eq, takeWhile_withReturns (by decide) (by decide)]
    have hskip := h.skip (List.takeWhile_prefix isIndentation).length_le
    rw [← List.prefix_iff_eq_take.1 (List.takeWhile_prefix isIndentation),
      withReturns_eq_self (newline_not_mem_takeWhile (by decide) _)] at hskip
    rw [hsame]
    exact ⟨rfl, .inl hskip⟩
  · have hnone (r : Bytes) : (newline :: r).takeWhile isIndentation = [] := rfl
    rw [hrest, hrest', hnone, hnone]
    exact ⟨rfl, .inr ⟨r, hplain, hrest, hrest', hline⟩⟩

end ByteCursor

/-- The tokens are of one kind and begin on the same line; unless they end a line, they begin at the
same column as well. -/
structure Token.Alike (t t' : Token) : Prop where
  kind_eq : t'.kind = t.kind
  line_eq : t'.position.line = t.position.line
  column_eq : t.kind ≠ .newline → t'.position.column = t.position.column

/-- The comments say the same at the same position. -/
structure Comment.Alike (c c' : Comment) : Prop where
  text_eq : c'.text = c.text
  position_eq : c'.position = c.position
  ownLine_eq : c'.ownLine = c.ownLine

/-- The items are tokens or comments that are alike, or one and the same fault. -/
inductive LexItem.Alike : LexItem → LexItem → Prop
  | token {t t' : Token} (h : t.Alike t') : Alike (.token t) (.token t')
  | comment {c c' : Comment} (h : c.Alike c') : Alike (.comment c) (.comment c')
  | fault (f : Fault) : Alike (.fault f) (.fault f)

/-- The item is no token of a literal between single quotes that goes on behind a newline. -/
def LexItem.StaysOnLine : LexItem → Prop
  | .token t => t.kind = .string → ¬ BreaksLine t.text
  | _ => True

open ByteCursor

/-- Marks at the same position are alike. -/
theorem mark_alike {c c' : ByteCursor} (h : c'.position = c.position) (kind : TokenKind) :
    LexItem.Alike (.token (c.mark kind)) (.token (c'.mark kind)) :=
  .token ⟨rfl, congrArg Position.line h, fun _ => congrArg Position.column h⟩

theorem marks_alike {c c' : ByteCursor} (h : c'.position = c.position) (kind : TokenKind)
    (levels : List Nat) :
    List.Forall₂ LexItem.Alike (levels.map fun _ => .token (c.mark kind))
      (levels.map fun _ => .token (c'.mark kind)) := by
  induction levels with
  | nil => exact .nil
  | cons level levels ih => exact .cons (mark_alike h kind) ih

namespace Lexer

variable {c c' : ByteCursor}

theorem layout_alike (h : c'.position = c.position) (levels : List Nat) (width : Nat) :
    List.Forall₂ LexItem.Alike (layout c levels width).1 (layout c' levels width).1 ∧
      (layout c' levels width).2 = (layout c levels width).2 := by
  unfold layout
  split
  · exact ⟨.cons (mark_alike h .indent) .nil, rfl⟩
  · refine ⟨List.rel_append (marks_alike h .dedent _) ?_, rfl⟩
    rw [h]
    split
    · exact .nil
    · exact .cons (.fault _) .nil

theorem optionalComment_follows (h : c.Follows c') :
    List.Forall₂ LexItem.Alike (optionalComment c).1 (optionalComment c').1 ∧
      (optionalComment c).2.Follows (optionalComment c').2 := by
  unfold optionalComment
  rcases h with h | h
  · have hhead := h.head?_eq_iff (d := byte '#') (by decide) (by decide)
    by_cases hcomment : c.rest.head? = some (byte '#')
    · obtain ⟨⟨htext, hposition, hownLine⟩, hbehind⟩ := h.comment
      rw [if_pos hcomment, if_pos (hhead.2 hcomment)]
      exact ⟨.cons (.comment ⟨htext, hposition, hownLine⟩) .nil,
        hbehind.imp (fun hend => hend.1) id⟩
    · rw [if_neg hcomment, if_neg (mt hhead.1 hcomment)]
      exact ⟨.nil, .inl h⟩
  · obtain ⟨r, -, hrest, hrest', -⟩ := id h
    have hnone : ¬ some newline = some (byte '#') := by decide
    rw [hrest, hrest', List.head?_cons, List.head?_cons, if_neg hnone, if_neg hnone]
    exact ⟨.nil, .inr h⟩

/-- Behind the optional return both lexers are at the same place, or in front of the newline. -/
theorem optionalReturn_follows (h : c.Follows c') :
    (optionalReturn c).Matches (optionalReturn c') ∧
        (optionalReturn c).rest.head? ≠ some newline ∨
      (optionalReturn c).PastReturn (optionalReturn c') := by
  unfold optionalReturn
  rcases h with h | h
  · have hnone : ¬ c.rest.head? = some carriageReturn := fun hhead =>
      h.plain (List.mem_of_mem_head? hhead)
    rw [if_neg hnone]
    by_cases hnewline : c.rest.head? = some newline
    · have hreturn : c'.rest.head? = some carriageReturn := by
        rw [h.rest_eq]
        cases hrest : c.rest with
        | nil => simp [hrest] at hnewline
        | cons d r =>
            rw [hrest] at hnewline
            cases hnewline
            rfl
      rw [if_pos hreturn]
      exact .inr (h.skip_return (n := 0) (Nat.zero_le _) hnewline)
    · have hsame : ¬ c'.rest.head? = some carriageReturn := by
        rw [h.rest_eq]
        cases hrest : c.rest with
        | nil => simp
        | cons d r =>
            rw [hrest] at hnewline hnone
            rw [withReturns_cons (by simpa using hnewline)]
            exact hnone
      rw [if_neg hsame]
      exact .inl ⟨h, hnewline⟩
  · obtain ⟨r, -, hrest, hrest', -⟩ := id h
    have hnone : ¬ some newline = some carriageReturn := by decide
    rw [hrest, hrest', List.head?_cons, List.head?_cons, if_neg hnone, if_neg hnone]
    exact .inr h

/-- The lexers are at the same place of the two texts, in the same state. -/
structure Follows (l l' : Lexer) : Prop where
  cursor : l.cursor.Follows l'.cursor
  levels_eq : l'.levels = l.levels
  depth_eq : l'.depth = l.depth
  lineStart_eq : l'.lineStart = l.lineStart
  lineOpen_eq : l'.lineOpen = l.lineOpen
  finished_eq : l'.finished = l.finished

variable {l l' : Lexer}

theorem startLine_follows (h : l.Follows l') :
    List.Forall₂ LexItem.Alike l.startLine.1 l'.startLine.1 ∧
      l.startLine.2.Follows l'.startLine.2 := by
  obtain ⟨hindentation, hskip⟩ := h.cursor.skip_indentation
  obtain ⟨hcomments, hbehind⟩ := optionalComment_follows hskip
  have hhere := optionalReturn_follows hbehind
  unfold startLine
  dsimp only
  rw [hindentation] at hcomments hhere ⊢
  generalize optionalComment (l.cursor.skip _) = before at hcomments hhere ⊢
  generalize optionalComment (l'.cursor.skip _) = before' at hcomments hhere ⊢
  generalize optionalReturn before.2 = here at hhere ⊢
  generalize optionalReturn before'.2 = here' at hhere ⊢
  rcases hhere with ⟨hmatches, hnewline⟩ | hpast
  · have hrest' := hmatches.rest_eq
    cases hrest : here.rest with
    | nil =>
        rw [hrest] at hrest'
        rw [hrest', withReturns_nil]
        exact ⟨hcomments, ⟨.inl hmatches, h.levels_eq, h.depth_eq, rfl, h.lineOpen_eq,
          h.finished_eq⟩⟩
    | cons d r =>
        rw [hrest] at hnewline hrest'
        have hd : ¬ d = newline := by simpa using hnewline
        obtain ⟨hmarks, hlevels⟩ := layout_alike hmatches.position_eq l.levels
          (indentationWidth (l.cursor.rest.takeWhile isIndentation))
        rw [hrest', withReturns_cons hd]
        dsimp only
        rw [if_neg hd, if_neg hd, h.levels_eq]
        exact ⟨List.rel_append hcomments hmarks, ⟨.inl hmatches, hlevels, h.depth_eq, rfl,
          h.lineOpen_eq, h.finished_eq⟩⟩
  · have hbehind := hpast.skip_one
    obtain ⟨r, -, hrest, hrest', -⟩ := hpast
    rw [hrest, hrest']
    dsimp only
    rw [if_pos rfl, if_pos rfl]
    exact ⟨hcomments, ⟨.inl hbehind, h.levels_eq, h.depth_eq, h.lineStart_eq, h.lineOpen_eq,
      h.finished_eq⟩⟩

/-! ### The middle of a line -/

theorem finish_follows (h : l.Follows l') (hhere : c.Matches c') :
    List.Forall₂ LexItem.Alike (l.finish c).1 (l'.finish c').1 ∧
      (l.finish c).2.Follows (l'.finish c').2 := by
  unfold finish
  dsimp only
  rw [h.depth_eq, h.lineOpen_eq, h.levels_eq, hhere.position_eq]
  refine ⟨List.rel_append (List.rel_append (List.rel_append ?_ ?_) ?_) ?_, ?_⟩
  · split
    · exact .cons (.fault _) .nil
    · exact .nil
  · split
    · exact .cons (mark_alike hhere.position_eq .newline) .nil
    · exact .nil
  · exact marks_alike hhere.position_eq .dedent l.levels
  · exact .cons (mark_alike hhere.position_eq .eof) .nil
  · exact ⟨.inl hhere, rfl, rfl, h.lineStart_eq, rfl, rfl⟩

theorem endLine_follows (h : l.Follows l') (hhere : c.PastReturn c') :
    List.Forall₂ LexItem.Alike (l.endLine c).1 (l'.endLine c').1 ∧
      (l.endLine c).2.Follows (l'.endLine c').2 := by
  have hbehind : (c.skip 1).Follows (c'.skip 1) := .inl hhere.skip_one
  obtain ⟨r, -, -, -, hline⟩ := hhere
  unfold endLine
  rw [h.depth_eq, h.lineOpen_eq]
  split
  · exact ⟨.nil, ⟨hbehind, h.levels_eq, rfl, h.lineStart_eq, rfl, h.finished_eq⟩⟩
  · split
    · refine ⟨.cons (.token ⟨rfl, hline, fun hkind => absurd rfl hkind⟩) .nil, ?_⟩
      exact ⟨hbehind, h.levels_eq, rfl, rfl, rfl, h.finished_eq⟩
    · exact ⟨.nil, ⟨hbehind, h.levels_eq, rfl, rfl, rfl, h.finished_eq⟩⟩

theorem readLexeme_follows (h : l.Follows l') (hhere : c.Matches c') {d : UInt8} {r : Bytes}
    (hrest : c.rest = d :: r) (hd : d ≠ newline)
    (hstays : ∀ item ∈ (l.readLexeme c d r).1, item.StaysOnLine) :
    List.Forall₂ LexItem.Alike (l.readLexeme c d r).1 (l'.readLexeme c' d (withReturns r)).1 ∧
      (l.readLexeme c d r).2.Follows (l'.readLexeme c' d (withReturns r)).2 := by
  have htoken : LexItem.token (c.token (Lexeme.first d r).kind (Lexeme.first d r).length) ∈
      (l.readLexeme c d r).1 := List.mem_append_right _ List.mem_cons_self
  have hliteral := hstays _ htoken
  simp only [LexItem.StaysOnLine, token, hrest] at hliteral
  obtain ⟨hkind, hcause, hreaches⟩ := Lexeme.first_withReturns hd hliteral
  have hlength := Lexeme.length_le d r
  rw [← hrest] at hreaches hlength
  unfold readLexeme
  dsimp only
  rw [hkind, hcause, hhere.position_eq, h.depth_eq]
  refine ⟨List.rel_append ?_ (.cons (.token ⟨rfl, ?_, fun _ => ?_⟩) .nil), ?_⟩
  · cases (Lexeme.first d r).cause with
    | none => exact .nil
    | some cause => exact .cons (.fault _) .nil
  · exact congrArg Position.line hhere.position_eq
  · exact congrArg Position.column hhere.position_eq
  · exact ⟨hhere.skip_reaches hlength hreaches, h.levels_eq, rfl, h.lineStart_eq, rfl,
      h.finished_eq⟩

theorem resume_follows (h : l.Follows l') (hstays : ∀ item ∈ l.resume.1, item.StaysOnLine) :
    List.Forall₂ LexItem.Alike l.resume.1 l'.resume.1 ∧ l.resume.2.Follows l'.resume.2 := by
  have hhere : (l.cursor.skip (gapLength l.cursor.rest)).Matches
        (l'.cursor.skip (gapLength l'.cursor.rest)) ∧
      (l.cursor.skip (gapLength l.cursor.rest)).rest.head? ≠ some newline ∨
        (l.cursor.skip (gapLength l.cursor.rest)).PastReturn
          (l'.cursor.skip (gapLength l'.cursor.rest)) := by
    rcases h.cursor with hmatches | hpast
    · exact hmatches.skip_gap
    · exact .inr hpast.skip_gap
  unfold resume at hstays ⊢
  dsimp only at hstays ⊢
  generalize l.cursor.skip (gapLength l.cursor.rest) = here at hhere hstays ⊢
  generalize l'.cursor.skip (gapLength l'.cursor.rest) = here' at hhere ⊢
  rcases hhere with ⟨hmatches, hnewline⟩ | hpast
  · have hrest' := hmatches.rest_eq
    cases hrest : here.rest with
    | nil =>
        rw [hrest] at hrest'
        rw [hrest', withReturns_nil]
        exact finish_follows h hmatches
    | cons d r =>
        rw [hrest] at hnewline hrest' hstays
        have hd : ¬ d = newline := by simpa using hnewline
        rw [hrest', withReturns_cons hd]
        dsimp only at hstays ⊢
        by_cases hcomment : d = byte '#'
        · obtain ⟨⟨htext, hposition, hownLine⟩, hbehind⟩ := hmatches.comment
          rw [hrest, hrest', withReturns_cons hd] at hbehind
          rw [if_pos hcomment, if_pos hcomment]
          exact ⟨.cons (.comment ⟨htext, hposition, hownLine⟩) .nil,
            ⟨hbehind.imp (fun hend => hend.1) id, h.levels_eq, h.depth_eq, h.lineStart_eq,
              h.lineOpen_eq, h.finished_eq⟩⟩
        · rw [if_neg hcomment, if_neg hd] at hstays ⊢
          rw [if_neg hcomment, if_neg hd]
          exact readLexeme_follows h hmatches hrest hd hstays
  · obtain ⟨r, -, hrest, hrest', -⟩ := id hpast
    rw [hrest, hrest']
    dsimp only
    have hcomment : ¬ newline = byte '#' := by decide
    rw [if_neg hcomment, if_pos rfl, if_neg hcomment, if_pos rfl]
    exact endLine_follows h hpast

/-- One step of both lexers yields items that are alike. -/
theorem step_follows (h : l.Follows l') (hstays : ∀ item ∈ l.step.1, item.StaysOnLine) :
    List.Forall₂ LexItem.Alike l.step.1 l'.step.1 ∧ l.step.2.Follows l'.step.2 := by
  unfold step at hstays ⊢
  rw [h.lineStart_eq, h.depth_eq]
  split
  · exact startLine_follows h
  next hmiddle =>
    rw [if_neg hmiddle] at hstays
    exact resume_follows h hstays

end Lexer

namespace LexedSource

/-- In a text whose literals between single quotes stay on their lines, every line may as well end
with a return and a newline: the tokens and comments are alike, and the faults are the same. -/
theorem ofSource_withReturns {source : Bytes} (plain : carriageReturn ∉ source)
    (stays : ∀ t ∈ (ofSource source).tokens, t.kind = .string → ¬ BreaksLine t.text) :
    let lexed := ofSource source
    let lexed' := ofSource (withReturns source)
    List.Forall₂ Token.Alike lexed.tokens lexed'.tokens ∧
      List.Forall₂ Comment.Alike lexed.comments lexed'.comments ∧
        lexed'.faults.map Fault.diagnostic = lexed.faults.map Fault.diagnostic := by
  have hstart : (Lexer.ofSource source).Follows (Lexer.ofSource (withReturns source)) :=
    ⟨.inl ⟨plain, rfl, rfl, rfl⟩, rfl, rfl, rfl, rfl, rfl⟩
  have hitems : List.Forall₂ LexItem.Alike (ofSource source).items
      (ofSource (withReturns source)).items := by
    refine Lexer.run_related (fun _ _ h => h.finished_eq)
      (fun _ _ h _ hstays => Lexer.step_follows h hstays) hstart fun item hitem => ?_
    cases item with
    | token t => exact stays t (mem_tokens_iff.2 hitem)
    | comment c => trivial
    | fault f => trivial
  have hfaults : List.Forall₂ Eq (ofSource source).faults (ofSource (withReturns source)).faults := by
    refine List.rel_filterMap (fun item item' h => ?_) hitems
    cases h with
    | token h => exact .none
    | comment h => exact .none
    | fault f => exact .some rfl
  refine ⟨List.rel_filterMap (fun item item' h => ?_) hitems,
    List.rel_filterMap (fun item item' h => ?_) hitems, ?_⟩
  · cases h with
    | token h => exact .some h
    | comment h => exact .none
    | fault f => exact .none
  · cases h with
    | token h => exact .none
    | comment h => exact .some h
    | fault f => exact .none
  · rw [List.forall₂_eq_eq_eq] at hfaults
    rw [hfaults]

/-- A literal of two lines between long quotes, comments, a block and a literal without its end. -/
def longSource : Bytes := ascii "x = '''a\\\n'''  # b\n\n  # c\nif x:\n\ty = \"d\n"

theorem ofSource_withReturns_longSource :
    (carriageReturn ∉ longSource ∧
      ∀ t ∈ (ofSource longSource).tokens, t.kind = .string → ¬ BreaksLine t.text) ∧
    (let lexed := ofSource longSource
    let lexed' := ofSource (withReturns longSource)
    List.Forall₂ Token.Alike lexed.tokens lexed'.tokens ∧
      List.Forall₂ Comment.Alike lexed.comments lexed'.comments ∧
        lexed'.faults.map Fault.diagnostic = lexed.faults.map Fault.diagnostic) := by
  have plain : carriageReturn ∉ longSource := by decide
  have hall : (ofSource longSource).tokens.all
      (fun t => t.kind != .string || !decide (BreaksLine t.text)) = true := by cbv
  have stays : ∀ t ∈ (ofSource longSource).tokens, t.kind = .string → ¬ BreaksLine t.text := by
    intro t ht hkind
    simpa [hkind] using List.all_eq_true.1 hall t ht
  exact ⟨⟨plain, stays⟩, ofSource_withReturns plain stays⟩

/-- A statement with a literal between single quotes that is continued on the next line. -/
def continuedSource : Bytes := ascii "x = 'a\\\n'\n"

/-- The literal is whole in the text itself, but not where its lines end with returns: there the
backslash hides the return, and the newline ends the literal. -/
theorem faults_withReturns_continuedSource :
    carriageReturn ∉ continuedSource ∧ (ofSource continuedSource).faults = [] ∧
      (ofSource (withReturns continuedSource)).faults =
        [⟨⟨1, 5⟩, .unterminatedString⟩, ⟨⟨2, 1⟩, .unterminatedString⟩] := by
  refine ⟨by decide, by cbv, by cbv⟩

end LexedSource

end DocLint
