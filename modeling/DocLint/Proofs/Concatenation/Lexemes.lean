import DocLint.Proofs.LineEndings.Lexemes
import DocLint.Proofs.Source.Spelling

/-!
# What stands behind a line

What stands at the beginning of a text that goes on behind a newline is the same whatever comes
behind that newline, unless it reaches over it.

* `gapLength_newline`, `takeWhile_newline`: blanks, comments and names end in front of the newline.
* `bodyExtent_append`: a closed literal is closed in a longer text, at the same place.
* `Lexeme.first_newline`: the lexeme of a text, unless it is reported.
-/

namespace DocLint

open Bytes

/-- The text is empty or ends with a newline, so that it hides nothing behind it with a backslash. -/
def EndsLine (s : Bytes) : Prop := ∀ c ∈ s.getLast?, c = newline

theorem EndsLine.of_suffix {s t : Bytes} (h : EndsLine t) (hs : s <:+ t) : EndsLine s := by
  obtain ⟨front, rfl⟩ := hs
  intro c hc
  refine h c ?_
  rw [List.getLast?_append, show s.getLast? = some c from hc]
  rfl

theorem endsLine_cons {c : UInt8} {s : Bytes} (h : EndsLine (c :: s)) : EndsLine s :=
  h.of_suffix (List.suffix_cons c s)

variable {p : UInt8 → Bool} (rest : Bytes)

theorem takeWhile_newline (hp : p newline = false) (s : Bytes) :
    (s ++ newline :: rest).takeWhile p = s.takeWhile p := by
  induction s with
  | nil => exact List.takeWhile_cons_of_neg (by simp [hp])
  | cons c s ih => rw [List.cons_append, List.takeWhile_cons, List.takeWhile_cons, ih]

theorem dropWhile_newline (hp : p newline = false) (s : Bytes) :
    (s ++ newline :: rest).dropWhile p = s.dropWhile p ++ newline :: rest := by
  induction s with
  | nil => exact List.dropWhile_cons_of_neg (by simp [hp])
  | cons c s ih =>
      rw [List.cons_append, List.dropWhile_cons, List.dropWhile_cons, ih]
      split
      · rfl
      · rfl

theorem head?_newline (hp : p newline = false) (s : Bytes) :
    (s ++ newline :: rest).head?.any p = s.head?.any p := by
  cases s with
  | nil => simp [hp]
  | cons c s => rfl

theorem commentLength_newline (s : Bytes) :
    commentLength (s ++ newline :: rest) = commentLength s := by
  rw [commentLength, takeWhile_newline rest (by simp), commentLength]

theorem gapLength_backslash_return {c : UInt8} (h : ¬ c = newline) (r : Bytes) :
    gapLength (backslash :: carriageReturn :: c :: r) = 0 := by
  rw [gapLength.eq_def]
  exact if_neg h

/-- Blanks end in front of a newline that no backslash escapes. -/
theorem gapLength_newline : ∀ {s : Bytes}, EndsLine s →
    gapLength (s ++ newline :: rest) = gapLength s
  | [], _ => gapLength_of_ne (by decide) (by decide) rest
  | c :: r, h => by
    have hr := endsLine_cons h
    rw [List.cons_append]
    by_cases hblank : isInlineBlank c = true
    · rw [gapLength_of_blank hblank, gapLength_of_blank hblank, gapLength_newline hr]
    · by_cases hbackslash : c = backslash
      · subst hbackslash
        match r, hr with
        | [], _ => exact absurd (h backslash rfl) (by decide)
        | d :: q, hr =>
          by_cases hnewline : d = newline
          · subst hnewline
            rw [List.cons_append, (gapLength_escaped _).1, (gapLength_escaped _).1,
              gapLength_newline (endsLine_cons hr)]
          · by_cases hreturn : d = carriageReturn
            · subst hreturn
              match q, hr with
              | [], hr => exact absurd (hr carriageReturn rfl) (by decide)
              | e :: q, hr =>
                by_cases hbehind : e = newline
                · subst hbehind
                  rw [List.cons_append, List.cons_append, (gapLength_escaped _).2,
                    (gapLength_escaped _).2, gapLength_newline (endsLine_cons (endsLine_cons hr))]
                · rw [List.cons_append, List.cons_append, gapLength_backslash_return hbehind,
                    gapLength_backslash_return hbehind]
            · rw [List.cons_append, gapLength_backslash hnewline hreturn,
                gapLength_backslash hnewline hreturn]
      · rw [gapLength_of_ne hblank hbackslash, gapLength_of_ne hblank hbackslash]

/-! ### Literals -/

/-- Where a text is long enough, what comes behind it does not change what it begins with. -/
theorem isPrefixOf_append {s t : Bytes} (h : t.length ≤ s.length) :
    t.isPrefixOf (s ++ rest) = t.isPrefixOf s := by
  rw [Bool.eq_iff_iff, List.isPrefixOf_iff_prefix, List.isPrefixOf_iff_prefix]
  exact ⟨fun hprefix => List.prefix_of_prefix_length_le hprefix (List.prefix_append s rest) h,
    fun hprefix => hprefix.trans (List.prefix_append s rest)⟩

theorem length_le_of_bodyExtent_closed {delimiter s : Bytes}
    (h : (bodyExtent delimiter s).closed = true) : delimiter.length ≤ s.length := by
  obtain ⟨body, -, hbody⟩ := bodyExtent_closed delimiter s h
  have hlength := congrArg List.length hbody
  rw [List.length_take, List.length_append] at hlength
  omega

/-- A closed body is closed in a longer text, at the same place. -/
theorem bodyExtent_append {delimiter s : Bytes} (h : (bodyExtent delimiter s).closed = true) :
    bodyExtent delimiter (s ++ rest) = bodyExtent delimiter s := by
  fun_induction bodyExtent delimiter s with
  | case1 => cases h
  | case2 => cases h
  | case3 d q ih =>
      rw [List.cons_append, List.cons_append, bodyExtent_backslash, ih h]
  | case4 => cases h
  | case5 c r hc hshort hfront =>
      have hlength := (List.isPrefixOf_iff_prefix.1 hfront).length_le
      rw [List.cons_append, bodyExtent.eq_def]
      refine (if_neg hc).trans ((if_neg hshort).trans (if_pos ?_))
      rw [← List.cons_append, isPrefixOf_append rest hlength]
      exact hfront
  | case6 c r hc hshort hfront ih =>
      have hlength : delimiter.length ≤ (c :: r).length :=
        Nat.le_succ_of_le (length_le_of_bodyExtent_closed h)
      rw [List.cons_append, bodyExtent_ordinary hc hshort, ih h]
      rwa [← List.cons_append, isPrefixOf_append rest hlength]

theorem openingDelimiter_newline {q : UInt8} (hq : isQuote q = true) (r : Bytes) :
    openingDelimiter (q :: r ++ newline :: rest) = openingDelimiter (q :: r) := by
  have hne := ne_newline_of_isQuote hq
  have hlong := isPrefixOf_append_separation (t := [q, q, q]) (b := newline)
    (by simp [Ne.symm hne]) (q :: r) rest
  rw [List.cons_append] at hlong ⊢
  rw [openingDelimiter, openingDelimiter, hlong]

/-- A closed literal is closed in a longer text, at the same place. -/
theorem quotedExtent_newline {q : UInt8} (hq : isQuote q = true) {r : Bytes}
    (h : (quotedExtent (q :: r ++ [newline])).closed = true) :
    quotedExtent (q :: r ++ newline :: rest) = quotedExtent (q :: r ++ [newline]) := by
  have hdrop (t : Bytes) : (q :: r ++ newline :: t).drop (openingDelimiter (q :: r)).length =
      (q :: r).drop (openingDelimiter (q :: r)).length ++ [newline] ++ t := by
    rw [List.drop_append_of_le_length (openingDelimiter_length_le _), List.append_assoc]
    rfl
  have hopening (t : Bytes) := openingDelimiter_newline t hq r
  simp only [quotedExtent, StringExtent.grow, hopening, hdrop, List.append_nil] at h ⊢
  rw [bodyExtent_append rest h]

/-! ### Numbers and operators -/

theorem numberTail_newline (hexadecimal : Bool) (last : UInt8) (s : Bytes) :
    numberTail hexadecimal last (s ++ newline :: rest) = numberTail hexadecimal last s := by
  induction s generalizing last with
  | nil =>
      have hsign : (newline == byte '+' || newline == byte '-') = false := by decide
      show numberTail hexadecimal last (newline :: rest) = 0
      rw [numberTail, if_neg (by decide), hsign, Bool.false_and, Bool.false_and,
        if_neg Bool.false_ne_true]
  | cons c r ih => rw [List.cons_append, numberTail, numberTail, ih]

theorem numberLength_newline (first : UInt8) (r : Bytes) :
    numberLength first (r ++ newline :: rest) = numberLength first r := by
  have hhead : ((r ++ newline :: rest).head?.map lowerByte == some (byte 'x')) =
      (r.head?.map lowerByte == some (byte 'x')) := by
    cases r with
    | nil => rfl
    | cons d r => rfl
  rw [numberLength, numberLength, hhead, numberTail_newline]

theorem operatorAt?_newline (s : Bytes) : operatorAt? (s ++ newline :: rest) = operatorAt? s := by
  rw [operatorAt?, operatorAt?, List.find?_congr fun entry hentry =>
    isPrefixOf_append_separation (operators_on_one_line entry hentry).1 s rest]

/-! ### Lexemes -/

namespace Lexeme

/-- A literal with letters in front, unless it is reported. -/
theorem ofQuoted_newline {mark : Bytes} {q : UInt8} (hq : isQuote q = true) {r : Bytes}
    (h : (ofQuoted mark.length (mark ++ q :: r ++ [newline])).cause = none) :
    ofQuoted mark.length (mark ++ q :: r ++ newline :: rest) =
      ofQuoted mark.length (mark ++ q :: r ++ [newline]) := by
  have hdrop (t : Bytes) : (mark ++ q :: r ++ t).drop mark.length = q :: r ++ t := by
    rw [List.append_assoc, List.drop_left]
  simp only [ofQuoted, hdrop, StringExtent.grow] at h ⊢
  have hclosed : (quotedExtent (q :: r ++ [newline])).closed = true := by
    by_contra hopen
    rw [if_neg hopen] at h
    cases h
  rw [quotedExtent_newline rest hq hclosed]

theorem ofWord_newline {s : Bytes} (h : (ofWord (s ++ [newline])).cause = none) :
    ofWord (s ++ newline :: rest) = ofWord (s ++ [newline]) := by
  have hword (t : Bytes) := takeWhile_newline (p := isNameByte) t (by decide) s
  have hbehind (t : Bytes) := dropWhile_newline (p := isNameByte) t (by decide) s
  have hquote (t : Bytes) := head?_newline (p := isQuote) t (by decide) (s.dropWhile isNameByte)
  have hsplit := List.takeWhile_append_dropWhile (p := isNameByte) (l := s)
  unfold ofWord at h ⊢
  simp only [hword, hbehind, hquote] at h ⊢
  split
  next hliteral =>
    rw [if_pos hliteral] at h
    rw [Bool.and_eq_true] at hliteral
    cases hrest : s.dropWhile isNameByte with
    | nil => simp [hrest] at hliteral
    | cons q r =>
        rw [hrest] at hsplit hliteral
        generalize s.takeWhile isNameByte = mark at hsplit h ⊢
        subst hsplit
        exact ofQuoted_newline rest (by simpa using hliteral.1) h
  · rfl

/-- The lexeme at the beginning of a text, unless it is reported. -/
theorem first_newline {c : UInt8} {r : Bytes} (h : (first c (r ++ [newline])).cause = none) :
    first c (r ++ newline :: rest) = first c (r ++ [newline]) := by
  have hdigit (t : Bytes) := head?_newline (p := isDigit) t (by decide) r
  have hoperator (t : Bytes) := operatorAt?_newline t (c :: r)
  have hnumber (t : Bytes) := numberLength_newline t c r
  simp only [List.cons_append] at hoperator
  unfold first at h ⊢
  simp only [hdigit, hoperator, hnumber] at h ⊢
  split
  next hq =>
    rw [if_pos hq] at h
    have hbare : (ofQuoted ([] : Bytes).length ([] ++ c :: r ++ [newline])).cause = none := h
    exact ofQuoted_newline rest hq hbare
  next hq =>
    rw [if_neg hq] at h
    split
    next hstart =>
      rw [if_pos hstart] at h
      exact ofWord_newline (s := c :: r) rest h
    · rfl

/-- A closed literal does not end with a newline. -/
theorem getLast?_of_isWritten {text mark delimiter body : Bytes}
    (h : IsWritten text mark delimiter body) : text.getLast? ≠ some newline := by
  obtain ⟨q, hq, hdelimiter⟩ := h.delimiter_quotes
  have hlast : delimiter.getLast? = some q := by
    rcases hdelimiter with rfl | ⟨rfl, -⟩
    · rfl
    · rfl
  rw [h.text_eq, List.getLast?_append, List.getLast?_append, List.getLast?_append, hlast]
  simpa using ne_newline_of_isQuote hq

/-- A lexeme does not reach over the newline behind the text, unless it is reported. -/
theorem length_first_newline {c : UInt8} {r : Bytes}
    (h : (first c (r ++ [newline])).cause = none) :
    (first c (r ++ [newline])).length ≤ (c :: r).length := by
  by_cases hstring : (first c (r ++ [newline])).kind = .string
  · rcases first_isWritten hstring with hcause | ⟨mark, delimiter, body, hwritten⟩
    · rw [hcause] at h
      cases h
    · by_contra hlong
      have hall : (c :: (r ++ [newline])).length ≤ (first c (r ++ [newline])).length := by
        rw [List.length_cons, List.length_append]
        exact Nat.not_le.1 hlong
      rw [List.take_of_length_le hall, ← List.cons_append] at hwritten
      exact getLast?_of_isWritten hwritten List.getLast?_concat
  · have hword := takeWhile_newline (p := isNameByte) [] (by decide) (c :: r)
    have hoperator := operatorAt?_newline [] (c :: r)
    rw [List.cons_append] at hword hoperator
    unfold first at h hstring ⊢
    split
    next hq =>
      rw [if_pos hq] at hstring
      exact absurd rfl hstring
    next hq =>
      rw [if_neg hq] at h hstring
      split
      next hstart =>
        rw [if_pos hstart] at hstring
        unfold ofWord at hstring ⊢
        dsimp only at hstring ⊢
        split
        next hliteral =>
          rw [if_pos hliteral] at hstring
          exact absurd rfl hstring
        · rw [hword]
          exact takeWhile_isNameByte_length_le (c :: r)
      next hstart =>
        rw [if_neg hstart] at h
        split
        · rw [numberLength_newline, numberLength]
          exact Nat.succ_le_succ (numberTail_le _ c r)
        next hnumber =>
          rw [if_neg hnumber] at h
          rw [hoperator] at h ⊢
          split
          next hfind =>
            have hfound := List.find?_some hfind
            exact (List.isPrefixOf_iff_prefix.1 hfound).length_le
          next hnone =>
            rw [hnone] at h
            cases h

end Lexeme

end DocLint
