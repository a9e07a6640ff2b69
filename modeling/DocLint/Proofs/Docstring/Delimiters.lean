import DocLint.Proofs.Docstring.Literal
import DocLint.Proofs.Source.BlockStructure
import DocLint.Proofs.Source.TokenPlace

/-!
# The delimiters of a literal

The lexer finds out by looking ahead how a literal is opened, and reads on to where it is closed;
the docstring reader sees the text of the token only, and finds the delimiters by its length and its
first bytes.  Both find the same, so that the body, its lines and all positions are the ones of the
source text.

* `run_written`: a token that is no mark of the layout is a lexeme of the source text.
* `IsBody.first_occurrence`: the delimiter does not stand in the body where no backslash hides it.
* `ofText_of_token`: the docstring literal of a string token that is not reported.
-/

namespace DocLint

open Bytes

/-! ### Where written tokens come from -/

namespace Lexer

variable {source : Bytes} {l : Lexer} {t : Token}

theorem layout_not_written {cursor : ByteCursor} {levels : List Nat} {width : Nat}
    (ht : LexItem.token t ∈ (layout cursor levels width).1) : t.kind.isWritten = false := by
  unfold layout at ht
  split at ht
  · cases List.mem_singleton.1 ht
    rfl
  · rcases List.mem_append.1 ht with ht | ht
    · obtain ⟨_, -, heq⟩ := List.mem_map.1 ht
      cases heq
      rfl
    · split at ht
      · cases ht
      · cases List.mem_singleton.1 ht

theorem startLine_not_written (ht : LexItem.token t ∈ l.startLine.1) :
    t.kind.isWritten = false := by
  have hcomments {here : ByteCursor} : LexItem.token t ∉ (optionalComment here).1 := by
    unfold optionalComment
    split
    · simp
    · simp
  dsimp only [startLine] at ht
  split at ht
  · exact absurd ht hcomments
  · split at ht
    · exact absurd ht hcomments
    · exact layout_not_written ((List.mem_append.1 ht).resolve_left hcomments)

theorem finish_not_written {here : ByteCursor} (ht : LexItem.token t ∈ (l.finish here).1) :
    t.kind.isWritten = false := by
  simp only [finish, List.mem_append] at ht
  rcases ht with ((ht | ht) | ht) | ht
  · split at ht
    · cases List.mem_singleton.1 ht
    · cases ht
  · split at ht
    · cases List.mem_singleton.1 ht
      rfl
    · cases ht
  · obtain ⟨_, -, heq⟩ := List.mem_map.1 ht
    cases heq
    rfl
  · cases List.mem_singleton.1 ht
    rfl

theorem endLine_not_written {here : ByteCursor} (ht : LexItem.token t ∈ (l.endLine here).1) :
    t.kind.isWritten = false := by
  unfold endLine at ht
  split at ht
  · cases ht
  · split at ht
    · cases List.mem_singleton.1 ht
      rfl
    · cases ht

/-- The token is the lexeme in front of a cursor, and what is wrong with it is among the items. -/
def IsLexemeOf (source : Bytes) (items : List LexItem) (t : Token) : Prop :=
  ∃ (here : ByteCursor) (c : UInt8) (r : Bytes), here.Within source ∧ here.rest = c :: r ∧
    t = here.token (Lexeme.first c r).kind (Lexeme.first c r).length ∧
    ∀ cause ∈ (Lexeme.first c r).cause, LexItem.fault ⟨t.position, cause⟩ ∈ items

theorem IsLexemeOf.mono {items more : List LexItem} (h : IsLexemeOf source items t)
    (hmore : ∀ item ∈ items, item ∈ more) : IsLexemeOf source more t := by
  obtain ⟨here, c, r, hwithin, hrest, htoken, hfaults⟩ := h
  exact ⟨here, c, r, hwithin, hrest, htoken, fun cause hcause => hmore _ (hfaults cause hcause)⟩

theorem readLexeme_isLexeme {here : ByteCursor} {c : UInt8} {r : Bytes} (h : here.Within source)
    (hrest : here.rest = c :: r) (ht : LexItem.token t ∈ (l.readLexeme here c r).1) :
    IsLexemeOf source (l.readLexeme here c r).1 t := by
  have htoken : t = here.token (Lexeme.first c r).kind (Lexeme.first c r).length := by
    rcases List.mem_append.1 ht with ht | ht
    · split at ht
      · cases ht
      · cases List.mem_singleton.1 ht
    · exact LexItem.token.inj (List.mem_singleton.1 ht)
  refine ⟨here, c, r, h, hrest, htoken, fun cause hcause => List.mem_append_left _ ?_⟩
  rw [htoken, Option.mem_def.1 hcause]
  exact List.mem_singleton_self _

theorem resume_written (h : l.cursor.Within source) (ht : LexItem.token t ∈ l.resume.1)
    (hwritten : t.kind.isWritten = true) : IsLexemeOf source l.resume.1 t := by
  have hhere := ByteCursor.within_skip (gapLength l.cursor.rest) h
  have hmark : ¬ t.kind.isWritten = false := by simp [hwritten]
  dsimp only [resume] at ht ⊢
  split at ht
  · exact absurd (finish_not_written ht) hmark
  next c r hrest =>
    split at ht
    · cases List.mem_singleton.1 ht
    next hcomment =>
      split at ht
      · exact absurd (endLine_not_written ht) hmark
      next hnewline =>
        have hread := readLexeme_isLexeme hhere hrest ht
        simpa only [hrest, if_neg hcomment, if_neg hnewline] using hread

/-- A token that is no mark of the layout is a lexeme of the source text. -/
theorem run_written (h : l.cursor.Within source) (ht : LexItem.token t ∈ l.run.1)
    (hwritten : t.kind.isWritten = true) : IsLexemeOf source l.run.1 t := by
  fun_induction run l with
  | case1 l _ => cases ht
  | case2 l _ rest ih =>
      rcases List.mem_append.1 ht with ht | ht
      · refine IsLexemeOf.mono ?_ fun _ => List.mem_append_left rest.1
        unfold step at ht ⊢
        split at ht
        · rw [startLine_not_written ht] at hwritten
          cases hwritten
        next hresume =>
          rw [if_neg hresume]
          exact resume_written h ht hwritten
      · exact (ih (step_faithful h).1 ht).mono fun _ => List.mem_append_right l.step.1

end Lexer

/-- A string token that is not reported stands in the source text, and has been closed where its
delimiter is met again. -/
theorem LexedSource.string_isDelimited {source : Bytes} {t : Token}
    (ht : t ∈ (ofSource source).tokens) (hkind : t.kind = .string)
    (hclosed : ⟨t.position, .unterminatedString⟩ ∉ (ofSource source).faults) :
    ∃ front behind mark delimiter body, source = front ++ (t.text ++ behind) ∧
      t.position = Position.after {} front ∧ IsDelimited t.text behind mark delimiter body := by
  have hwritten : t.kind.isWritten = true := by
    rw [hkind]
    rfl
  have hstart : (Lexer.ofSource source).cursor.Within source := ⟨[], rfl, rfl, rfl⟩
  obtain ⟨here, c, r, hwithin, hrest, htoken, hfaults⟩ :=
    Lexer.run_written hstart (mem_tokens_iff.1 ht) hwritten
  obtain ⟨front, hsource, hposition, -⟩ := hwithin
  have htext : t.text = (c :: r).take (Lexeme.first c r).length := by
    rw [htoken, ByteCursor.token, hrest]
  have hstring : (Lexeme.first c r).kind = .string := by
    rw [← hkind, htoken]
    rfl
  rcases Lexeme.first_isDelimited hstring with hcause | ⟨mark, delimiter, body, hdelimited⟩
  · exact absurd (mem_faults_iff.2 (hfaults _ hcause)) hclosed
  · refine ⟨front, (c :: r).drop (Lexeme.first c r).length, mark, delimiter, body, ?_, ?_,
      htext ▸ hdelimited⟩
    · rw [htext, List.take_append_drop, hsource, hrest]
    · rw [htoken]
      exact hposition

/-! ### Where the body ends -/

/-- No backslash at the end of the text hides what follows: it consists of bytes other than
backslashes and of backslashes with the byte behind them. -/
inductive IsWhole : Bytes → Prop
  | nil : IsWhole []
  | escape (c : UInt8) {r : Bytes} (rest : IsWhole r) : IsWhole (backslash :: c :: r)
  | plain {c : UInt8} {r : Bytes} (hc : c ≠ backslash) (rest : IsWhole r) : IsWhole (c :: r)

namespace IsBody

variable {delimiter body : Bytes}

theorem isWhole (h : IsBody delimiter body) : IsWhole body := by
  induction h with
  | nil => exact .nil
  | escape c _ ih => exact ih.escape c
  | plain hc _ _ _ ih => exact ih.plain hc

/-- The delimiter does not stand in the body where no backslash hides it. -/
theorem first_occurrence (h : IsBody delimiter body) (hdelimiter : IsDelimiter delimiter)
    {p r : Bytes} (hp : IsWhole p) (hsplit : body ++ delimiter = p ++ (delimiter ++ r)) :
    p = body := by
  -- The induction is on the body; both texts are read in the same units.
  induction h generalizing p with
  | nil =>
      have hlength := congrArg List.length hsplit
      simp only [List.length_append, List.length_nil] at hlength
      exact List.eq_nil_of_length_eq_zero (by omega)
  | escape c _ ih =>
      cases hp with
      | nil =>
          obtain ⟨q, hq, rfl | rfl⟩ := hdelimiter
          · rw [← (List.cons.inj hsplit).1] at hq
            exact absurd hq (by decide)
          · rw [← (List.cons.inj hsplit).1] at hq
            exact absurd hq (by decide)
      | escape d hp =>
          obtain ⟨-, htail⟩ := List.cons.inj hsplit
          obtain ⟨rfl, hbehind⟩ := List.cons.inj htail
          rw [ih hp hbehind]
      | plain hd _ => exact absurd (List.cons.inj hsplit).1.symm hd
  | plain hc _ hopen _ ih =>
      cases hp with
      | nil => exact absurd ⟨r, hsplit.symm⟩ hopen
      | escape d _ => exact absurd (List.cons.inj hsplit).1 hc
      | plain _ hp =>
          obtain ⟨rfl, htail⟩ := List.cons.inj hsplit
          rw [ih hp htail]

end IsBody

/-! ### The docstring literal of a token -/

/-- The docstring reader takes a string token of a source text apart as the lexer has read it: the
token stands behind `front` and in front of `behind`, and consists of the letters `mark`, the
delimiter, the body and the delimiter again. -/
structure IsTakenApart (source : Bytes) (t : Token) (literal : DocLiteral)
    (front behind mark delimiter : Bytes) : Prop where
  source_eq : source = front ++ (t.text ++ behind)
  position_eq : t.position = Position.after {} front
  text_eq : t.text = mark ++ (delimiter ++ (literal.body ++ delimiter))
  mark_plain : ∀ c ∈ mark, isQuote c = false
  /-- The delimiter is one quote or three. -/
  isDelimiter : IsDelimiter delimiter
  /-- It is the one that the lexer finds behind the letters. -/
  opening : openingDelimiter ((t.text ++ behind).drop mark.length) = delimiter
  /-- No backslash of the body hides the closing delimiter. -/
  isWhole : IsWhole literal.body
  /-- The closing delimiter is the first one that no backslash hides. -/
  first_occurrence : ∀ p r, IsWhole p →
    literal.body ++ delimiter = p ++ (delimiter ++ r) → p = literal.body
  start_eq : literal.start = t.position
  /-- The body begins at the position of the first byte behind the opening delimiter. -/
  bodyStart_eq : literal.bodyStart = Position.after {} (front ++ (mark ++ delimiter))
  stop_eq : literal.stop = t.stop
  texts_eq : literal.lines.map DocLine.text = Bytes.lines literal.body
  /-- The first line begins with the body, and every other one at the beginning of a line. -/
  line_position : ∀ i (hi : i < literal.lines.length), literal.lines[i].position =
    if i = 0 then literal.bodyStart else ⟨literal.bodyStart.line + UInt32.ofNat i, 1⟩
  /-- There its text is found in the source text, behind the lines above it. -/
  line_place : ∀ i (hi : i < literal.lines.length),
    let above := front ++ (mark ++ (delimiter ++ linesAbove (Bytes.lines literal.body) i))
    literal.lines[i].position = Position.after {} above ∧
      ∃ rest, source = above ++ (literal.lines[i].text ++ rest)

/-- The docstring literal of a string token that is not reported has the delimiters, the body and
the lines that the lexer has found. -/
theorem ofText_of_token {source : Bytes} {t : Token} (ht : t ∈ (LexedSource.ofSource source).tokens)
    (hkind : t.kind = .string)
    (hclosed : ⟨t.position, .unterminatedString⟩ ∉ (LexedSource.ofSource source).faults) :
    ∃ front behind mark delimiter,
      IsTakenApart source t (.ofText t.text t.position) front behind mark delimiter := by
  obtain ⟨front, behind, mark, delimiter, body, hsource, hposition, hdelimited⟩ :=
    LexedSource.string_isDelimited ht hkind hclosed
  have hwritten := hdelimited.toIsWritten
  have hliteral := hwritten.ofText_eq t.position
  have hbody : (DocLiteral.ofText t.text t.position).body = body := by rw [hliteral]
  have hdelimiter : IsDelimiter delimiter := by
    obtain ⟨q, hq, hquotes⟩ := hwritten.delimiter_quotes
    exact ⟨q, hq, hquotes.symm.imp_left And.left⟩
  refine ⟨front, behind, mark, delimiter, {
    source_eq := hsource
    position_eq := hposition
    text_eq := hbody ▸ hwritten.text_eq
    mark_plain := fun c hc => (hwritten.mark_plain c hc).1
    isDelimiter := hdelimiter
    opening := ?_
    isWhole := hbody ▸ hdelimited.closing.isWhole
    first_occurrence := ?_
    start_eq := rfl
    bodyStart_eq := ?_
    stop_eq := rfl
    texts_eq := DocLiteral.map_text_lines _
    line_position := fun i hi => ?_
    line_place := fun i hi => ?_ }⟩
  · rw [hwritten.text_eq, List.append_assoc, List.drop_left]
    simpa using hdelimited.opening
  · rw [hbody]
    exact fun p r hp => hdelimited.closing.first_occurrence hdelimiter hp
  · rw [hliteral, hposition, Position.after_append,
      Position.after_eq_right hwritten.newline_not_mem_opening, List.length_append]
  · obtain ⟨_, hget⟩ := DocLiteral.getElem_lines _ hi
    exact congrArg DocLine.position hget
  · have hplace := DocLiteral.lines_place hsource hwritten (i := i)
    rw [← hposition] at hplace
    obtain ⟨hrest, hline, -⟩ := hplace hi
    rw [hbody]
    exact ⟨hline, hrest⟩

/-- A literal on two lines that holds its own quotes: hidden by a backslash, or too few in a row. -/
def quotesInside : Bytes := ascii "f(rb'''a\\'''b\n''c''')\n"

/-- The string token of `quotesInside`. -/
def quotesInsideToken : Token where
  kind := .string
  text := ascii "rb'''a\\'''b\n''c'''"
  position := ⟨1, 3⟩
  offset := 2

theorem ofText_of_quotesInside :
    (quotesInsideToken ∈ (LexedSource.ofSource quotesInside).tokens ∧
      quotesInsideToken.kind = .string ∧ ⟨quotesInsideToken.position, .unterminatedString⟩ ∉
        (LexedSource.ofSource quotesInside).faults) ∧
      ∃ front behind mark delimiter, IsTakenApart quotesInside quotesInsideToken
        (.ofText quotesInsideToken.text quotesInsideToken.position) front behind mark delimiter := by
  -- The string is the third token: the lexer runs on the whole source here.
  have hget : (LexedSource.ofSource quotesInside).tokens[2]? = some quotesInsideToken := by cbv
  have hmem := List.mem_of_getElem? hget
  have hfaults : (LexedSource.ofSource quotesInside).faults = [] := by cbv
  have hclosed : ⟨quotesInsideToken.position, .unterminatedString⟩ ∉
      (LexedSource.ofSource quotesInside).faults := by
    rw [hfaults]
    exact List.not_mem_nil
  exact ⟨⟨hmem, rfl, hclosed⟩, ofText_of_token hmem rfl hclosed⟩

end DocLint
