import DocLint.Docstring.Literal
import DocLint.Proofs.Source.Spelling

/-!
# String literals taken apart

What the lexer reads as a closed string literal consists of letters, a delimiter, a body and the
same delimiter again, and the docstring reader takes it apart at the very same places.

* `IsWritten`: the four parts of a closed literal; `IsDelimited`: how the lexer has found them.
* `first_isDelimited`: a string lexeme is closed and has the four parts, or it is reported.
* `ofText_eq`: the docstring literal of a closed literal.
-/

namespace DocLint

open Bytes

/-- The text of a literal consists of `mark`, `delimiter`, `body` and `delimiter`.  A short delimiter
is one that cannot be read as a long one. -/
structure IsWritten (text mark delimiter body : Bytes) : Prop where
  text_eq : text = mark ++ (delimiter ++ (body ++ delimiter))
  mark_plain : ∀ c ∈ mark, isQuote c = false ∧ c ≠ newline
  delimiter_quotes : ∃ q, isQuote q = true ∧ (delimiter = [q, q, q] ∨
    delimiter = [q] ∧ ¬ [q, q, q] <+: delimiter ++ (body ++ delimiter))

/-- The four parts of a literal in front of `behind`, as the lexer has found them: the delimiter is
the one that opens what stands behind the letters, and the body ends where that is met again. -/
structure IsDelimited (text behind mark delimiter body : Bytes) : Prop
    extends IsWritten text mark delimiter body where
  opening : openingDelimiter (delimiter ++ (body ++ (delimiter ++ behind))) = delimiter
  closing : IsBody delimiter body

theorem ne_newline_of_isQuote {q : UInt8} (h : isQuote q = true) : q ≠ newline := by
  rintro rfl
  exact absurd h (by decide)

namespace IsWritten

variable {text mark delimiter body : Bytes}

/-- The opening of a literal stands on one line. -/
theorem newline_not_mem_opening (h : IsWritten text mark delimiter body) :
    newline ∉ mark ++ delimiter := by
  obtain ⟨q, hq, hd⟩ := h.delimiter_quotes
  have hne := ne_newline_of_isQuote hq
  rw [List.mem_append, not_or]
  refine ⟨fun hmem => (h.mark_plain newline hmem).2 rfl, ?_⟩
  rcases hd with rfl | ⟨rfl, -⟩
  · simp [Ne.symm hne]
  · simp [Ne.symm hne]

theorem delimiter_length_pos (h : IsWritten text mark delimiter body) :
    0 < delimiter.length := by
  obtain ⟨q, -, rfl | ⟨rfl, -⟩⟩ := h.delimiter_quotes
  · simp
  · simp

/-- The letters in front end at the first quote. -/
theorem takeWhile_mark (h : IsWritten text mark delimiter body) :
    text.takeWhile (fun c => !isQuote c) = mark := by
  obtain ⟨q, hq, hd⟩ := h.delimiter_quotes
  have hfirst : ∃ r, delimiter ++ (body ++ delimiter) = q :: r := by
    rcases hd with rfl | ⟨rfl, -⟩
    · exact ⟨_, rfl⟩
    · exact ⟨_, rfl⟩
  obtain ⟨r, hr⟩ := hfirst
  rw [h.text_eq, hr, List.takeWhile_append_of_pos fun c hc => by simp [(h.mark_plain c hc).1]]
  simp [hq]

/-- The delimiter is recognised again from the first quote on. -/
theorem delimiterLength_eq (h : IsWritten text mark delimiter body) :
    DocLiteral.delimiterLength (delimiter ++ (body ++ delimiter)) = delimiter.length := by
  obtain ⟨q, -, rfl | ⟨rfl, hshort⟩⟩ := h.delimiter_quotes
  · simp [DocLiteral.delimiterLength]
  · unfold DocLiteral.delimiterLength
    split
    next a b c rest hquoted =>
      rw [if_neg]
      · rfl
      · rintro ⟨-, rfl, rfl⟩
        have ha : q = c := by simpa using (List.cons.inj hquoted).1
        subst ha
        exact hshort ⟨rest, by rw [hquoted]; rfl⟩
    · rfl

/-- The docstring literal of a closed literal has its body. -/
theorem ofText_eq (h : IsWritten text mark delimiter body) (start : Position) :
    DocLiteral.ofText text start =
      { body
        start
        bodyStart := start.right (mark.length + delimiter.length)
        stop := start.after text
        indent := start.column - 1 } := by
  have hmark := h.takeWhile_mark
  have hquoted : text.drop mark.length = delimiter ++ (body ++ delimiter) := by
    rw [h.text_eq]
    exact List.drop_left
  have hlength := h.delimiterLength_eq
  unfold DocLiteral.ofText
  simp only [hmark, hquoted, hlength]
  have hopened : min delimiter.length (delimiter ++ (body ++ delimiter)).length =
      delimiter.length := by
    simp
  have hclosed : (delimiter ++ (body ++ delimiter)).length - delimiter.length =
      (delimiter ++ body).length := by
    simp only [List.length_append]
    omega
  have hroom : delimiter.length + delimiter.length ≤
      (delimiter ++ (body ++ delimiter)).length := by
    simp only [List.length_append]
    omega
  have hbody : ((delimiter ++ (body ++ delimiter)).take (delimiter ++ body).length).drop
      delimiter.length = body := by
    rw [← List.append_assoc, List.take_left, List.drop_left]
  simp only [hopened, if_pos hroom, hclosed, hbody]

end IsWritten

/-! ### What the lexer closes -/

/-- A closed body ends where its delimiter is met for the first time. -/
theorem bodyExtent_closed (delimiter s : Bytes) (h : (bodyExtent delimiter s).closed = true) :
    ∃ body, IsBody delimiter body ∧
      s.take (bodyExtent delimiter s).length = body ++ delimiter := by
  fun_induction bodyExtent delimiter s with
  | case1 => cases h
  | case2 => cases h
  | case3 d q ih =>
      obtain ⟨body, hbody, htake⟩ := ih h
      exact ⟨backslash :: d :: body, hbody.escape d, by simp [StringExtent.grow, htake]⟩
  | case4 => cases h
  | case5 c r _ _ hprefix =>
      obtain ⟨rest, hrest⟩ := List.isPrefixOf_iff_prefix.1 hprefix
      refine ⟨[], .nil, ?_⟩
      rw [← hrest]
      exact List.take_left
  | case6 c r hc hline hnone ih =>
      obtain ⟨body, hbody, htake⟩ := ih h
      -- The delimiter does not stand here, so it does not stand here in what is taken either.
      have hopen : ¬ delimiter <+: c :: (body ++ delimiter) := fun hp =>
        hnone (List.isPrefixOf_iff_prefix.2 (hp.trans
          ((List.prefix_cons_inj c).2 (htake ▸ List.take_prefix _ r))))
      exact ⟨c :: body, .plain hc (fun hone heq => hline ⟨heq, hone⟩) hopen hbody,
        by simp [StringExtent.grow, htake]⟩

/-- The opening delimiter is a quote, or three where three stand. -/
theorem openingDelimiter_cons (q : UInt8) (r : Bytes) :
    openingDelimiter (q :: r) = [q, q, q] ∧ [q, q, q] <+: q :: r ∨
      openingDelimiter (q :: r) = [q] ∧ ¬ [q, q, q] <+: q :: r := by
  unfold openingDelimiter
  by_cases h : [q, q, q] <+: q :: r
  · exact .inl ⟨if_pos (List.isPrefixOf_iff_prefix.2 h), h⟩
  · exact .inr ⟨if_neg fun hp => h (List.isPrefixOf_iff_prefix.1 hp), h⟩

theorem openingDelimiter_isPrefix (s : Bytes) : openingDelimiter s <+: s := by
  cases s with
  | nil => exact List.prefix_refl _
  | cons q r =>
      rcases openingDelimiter_cons q r with ⟨heq, hp⟩ | ⟨heq, -⟩
      · rw [heq]
        exact hp
      · rw [heq]
        exact ⟨r, rfl⟩

/-- A closed literal, from its first quote on. -/
theorem quotedExtent_closed {q : UInt8} {r : Bytes} (hq : isQuote q = true)
    (h : (quotedExtent (q :: r)).closed = true) :
    ∃ delimiter body, IsDelimited ((q :: r).take (quotedExtent (q :: r)).length)
      ((q :: r).drop (quotedExtent (q :: r)).length) [] delimiter body := by
  have hextent : (quotedExtent (q :: r)).closed =
      (bodyExtent (openingDelimiter (q :: r))
        ((q :: r).drop (openingDelimiter (q :: r)).length)).closed := rfl
  rw [hextent] at h
  obtain ⟨body, hclosing, hbody⟩ := bodyExtent_closed _ _ h
  -- The extent counts from the first quote on, that of the body from behind the opening.
  have hopening := List.prefix_iff_eq_take.1 (openingDelimiter_isPrefix (q :: r))
  have htext : (q :: r).take (quotedExtent (q :: r)).length =
      openingDelimiter (q :: r) ++ (body ++ openingDelimiter (q :: r)) := by
    rw [← hbody]
    have hlength : (quotedExtent (q :: r)).length = (openingDelimiter (q :: r)).length +
        (bodyExtent (openingDelimiter (q :: r))
          ((q :: r).drop (openingDelimiter (q :: r)).length)).length :=
      Nat.add_comm _ _
    rw [hlength, List.take_add, ← hopening]
  have hall : openingDelimiter (q :: r) ++ (body ++ (openingDelimiter (q :: r) ++
      (q :: r).drop (quotedExtent (q :: r)).length)) = q :: r := by
    have hsplit := List.take_append_drop (quotedExtent (q :: r)).length (q :: r)
    rw [htext] at hsplit
    simpa using hsplit
  refine ⟨openingDelimiter (q :: r), body, ⟨htext, by simp, q, hq, ?_⟩, ?_, hclosing⟩
  · rcases openingDelimiter_cons q r with ⟨heq, -⟩ | ⟨heq, hshort⟩
    · exact .inl heq
    -- Three quotes in a row would have been taken for the opening.
    · refine .inr ⟨heq, fun hp => hshort (hp.trans ?_)⟩
      rw [← htext]
      exact List.take_prefix _ _
  · rw [hall]

theorem mark_plain_of_isNameByte {c : UInt8} (h : isNameByte c = true) :
    isQuote c = false ∧ c ≠ newline := by
  refine ⟨?_, ?_⟩
  · refine Bool.eq_false_iff.2 fun hquote => ?_
    simp only [isQuote, Bool.or_eq_true, beq_iff_eq] at hquote
    rcases hquote with rfl | rfl
    · exact absurd h (by decide)
    · exact absurd h (by decide)
  · rintro rfl
    exact absurd h (by decide)

namespace Lexeme

/-- A literal with letters in front is closed and has four parts, or it is reported. -/
theorem ofQuoted_isDelimited {mark : Bytes} {q : UInt8} (rest : Bytes) (hq : isQuote q = true)
    (hmark : ∀ c ∈ mark, isQuote c = false ∧ c ≠ newline) :
    (ofQuoted mark.length (mark ++ q :: rest)).cause = some .unterminatedString ∨
      ∃ delimiter body, IsDelimited
        ((mark ++ q :: rest).take (ofQuoted mark.length (mark ++ q :: rest)).length)
        ((mark ++ q :: rest).drop (ofQuoted mark.length (mark ++ q :: rest)).length)
        mark delimiter body := by
  have hdrop : (mark ++ q :: rest).drop mark.length = q :: rest := List.drop_left
  unfold ofQuoted
  simp only [hdrop, StringExtent.grow]
  by_cases hclosed : (quotedExtent (q :: rest)).closed = true
  · obtain ⟨delimiter, body, hwritten⟩ := quotedExtent_closed hq hclosed
    refine .inr ⟨delimiter, body, ⟨?_, hmark, hwritten.delimiter_quotes⟩, ?_, hwritten.closing⟩
    · rw [Nat.add_comm, List.take_length_add_append, hwritten.text_eq, List.nil_append]
    · rw [Nat.add_comm, List.drop_length_add_append]
      exact hwritten.opening
  · exact .inl (by simp [hclosed])

theorem operatorAt?_ne_string {s spelling : Bytes} {kind : TokenKind}
    (h : operatorAt? s = some (spelling, kind)) : kind ≠ .string := by
  have hall : ∀ entry ∈ operators, entry.2 ≠ .string := by decide
  exact hall _ (List.mem_of_find?_eq_some h)

theorem ofWord_kind_ne_string (word : Bytes) : TokenKind.ofWord word ≠ .string := by
  unfold TokenKind.ofWord
  split <;> simp

/-- A string lexeme is closed and has four parts, or it is reported. -/
theorem first_isDelimited {c : UInt8} {r : Bytes} (h : (first c r).kind = .string) :
    (first c r).cause = some .unterminatedString ∨
      ∃ mark delimiter body, IsDelimited ((c :: r).take (first c r).length)
        ((c :: r).drop (first c r).length) mark delimiter body := by
  unfold first at h ⊢
  by_cases hquote : isQuote c = true
  · simp only [hquote, if_true]
    have hempty : ∀ b ∈ ([] : Bytes), isQuote b = false ∧ b ≠ newline := by simp
    exact (ofQuoted_isDelimited r hquote hempty).imp_right fun ⟨d, b, hw⟩ => ⟨[], d, b, hw⟩
  · simp only [hquote, Bool.false_eq_true, if_false] at h ⊢
    by_cases hname : isNameStart c = true
    · simp only [hname, if_true] at h ⊢
      unfold ofWord at h ⊢
      by_cases hstring : (((c :: r).dropWhile isNameByte).head?.any isQuote &&
          isStringMark ((c :: r).takeWhile isNameByte)) = true
      · -- The word in front of the quotes is the mark.
        simp only [hstring, if_true]
        rw [Bool.and_eq_true] at hstring
        cases hrest : (c :: r).dropWhile isNameByte with
        | nil => simp [hrest] at hstring
        | cons q rest =>
            have hq : isQuote q = true := by simpa [hrest] using hstring.1
            have hsplit : c :: r = (c :: r).takeWhile isNameByte ++ q :: rest := by
              rw [← hrest, List.takeWhile_append_dropWhile]
            have hplain : ∀ b ∈ (c :: r).takeWhile isNameByte, isQuote b = false ∧ b ≠ newline :=
              fun b hb => mark_plain_of_isNameByte (List.all_eq_true.1 List.all_takeWhile b hb)
            have hwritten := ofQuoted_isDelimited rest hq hplain
            rw [← hsplit] at hwritten
            exact hwritten.imp_right fun ⟨d, b, hw⟩ => ⟨_, d, b, hw⟩
      · simp only [hstring, Bool.false_eq_true, if_false] at h
        exact absurd h (ofWord_kind_ne_string _)
    · simp only [hname, Bool.false_eq_true, if_false] at h
      split at h
      · cases h
      · split at h
        next spelling kind hop => exact absurd h (operatorAt?_ne_string hop)
        · cases h

/-- The four parts of a string lexeme, however they were found. -/
theorem first_isWritten {c : UInt8} {r : Bytes} (h : (first c r).kind = .string) :
    (first c r).cause = some .unterminatedString ∨
      ∃ mark delimiter body,
        IsWritten ((c :: r).take (first c r).length) mark delimiter body :=
  (first_isDelimited h).imp_right fun ⟨mark, delimiter, body, hdelimited⟩ =>
    ⟨mark, delimiter, body, hdelimited.toIsWritten⟩

end Lexeme

end DocLint
