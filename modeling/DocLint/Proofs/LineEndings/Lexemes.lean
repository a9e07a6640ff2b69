import DocLint.Proofs.LineEndings.Text
import DocLint.Proofs.Source.StringLiteral

/-!
# Lexemes and line ends

The lexeme at the beginning of a text is the same where the lines end with returns.  Only a literal
between single quotes that hides a newline behind a backslash is not: the backslash hides the return
alone then.

* `BreaksLine`: a newline stands in a literal between single quotes.
* `Reaches`, `EndsAlike`: the text is read up to the same place with returns.
* `bodyExtent_withReturns`: how far the body of a literal reaches.
* `Lexeme.first_withReturns`: the kind of the lexeme, what is wrong with it and how far it reaches.
-/

namespace DocLint

open Bytes

/-- The text is a literal between single quotes that goes on behind a newline. -/
def BreaksLine (text : Bytes) : Prop :=
  (openingDelimiter (text.dropWhile isNameByte)).length = 1 ∧ newline ∈ text

instance (text : Bytes) : Decidable (BreaksLine text) := inferInstanceAs (Decidable (_ ∧ _))

/-- The first `n` bytes reach as far as the first `n'` of the text with returns, or these hold the
return in front of the next newline as well. -/
def Reaches (s : Bytes) (n n' : Nat) : Prop :=
  n' = (withReturns (s.take n)).length ∨
    n' = (withReturns (s.take n)).length + 1 ∧ (s.drop n).head? = some newline

namespace Reaches

variable {s : Bytes} {n n' : Nat}

theorem of_not_mem (h : newline ∉ s.take n) (hn : n ≤ s.length) : Reaches s n n := by
  refine .inl ?_
  rw [withReturns_eq_self h, List.length_take, Nat.min_eq_left hn]

/-- Some bytes more in front. -/
theorem grow (t : Bytes) {k k' : Nat} (h : Reaches s n n') (hk : k = t.length)
    (hk' : k' = (withReturns t).length) : Reaches (t ++ s) (n + k) (n' + k') := by
  unfold Reaches
  rw [Nat.add_comm n, hk, hk', List.take_length_add_append, List.drop_length_add_append,
    withReturns_append, List.length_append]
  rcases h with rfl | ⟨rfl, hnext⟩
  · exact .inl (Nat.add_comm _ _)
  · exact .inr ⟨by omega, hnext⟩

end Reaches

/-- With returns the text is read up to the same place, and it is closed there or not as before. -/
def EndsAlike (s : Bytes) (extent extent' : StringExtent) : Prop :=
  extent'.closed = extent.closed ∧ Reaches s extent.length extent'.length

theorem EndsAlike.grow {s : Bytes} {extent extent' : StringExtent} (h : EndsAlike s extent extent')
    (t : Bytes) : EndsAlike (t ++ s) (extent.grow t.length) (extent'.grow (withReturns t).length) :=
  ⟨h.1, h.2.grow t rfl rfl⟩

/-- What is behind the front of a text has no newline if all of it has none. -/
theorem newline_not_mem_take {t s : Bytes} {n : Nat} (h : newline ∉ (t ++ s).take (n + t.length)) :
    newline ∉ s.take n := by
  rw [Nat.add_comm, List.take_length_add_append] at h
  exact fun hmem => h (List.mem_append_right t hmem)

/-! ### Literals -/

theorem bodyExtent_backslash (delimiter : Bytes) (d : UInt8) (r : Bytes) :
    bodyExtent delimiter (backslash :: d :: r) = (bodyExtent delimiter r).grow 2 := by
  rw [bodyExtent.eq_def]
  exact if_pos rfl

theorem bodyExtent_ordinary {delimiter : Bytes} {c : UInt8} {r : Bytes} (hc : c ≠ backslash)
    (hnewline : ¬ (c = newline ∧ delimiter.length = 1))
    (hfront : ¬ delimiter.isPrefixOf (c :: r) = true) :
    bodyExtent delimiter (c :: r) = (bodyExtent delimiter r).grow 1 := by
  rw [bodyExtent.eq_def]
  exact (if_neg hc).trans ((if_neg hnewline).trans (if_neg hfront))

theorem not_isPrefixOf_of_not_mem {delimiter : Bytes} (hne : delimiter ≠ []) {c : UInt8}
    (h : c ∉ delimiter) (r : Bytes) : ¬ delimiter.isPrefixOf (c :: r) = true := by
  cases delimiter with
  | nil => exact absurd rfl hne
  | cons d delimiter =>
      rw [List.isPrefixOf_cons_cons, Bool.and_eq_true, beq_iff_eq]
      rintro ⟨rfl, -⟩
      exact h List.mem_cons_self

section Body

variable {delimiter : Bytes} (hne : delimiter ≠ []) (hnewline : newline ∉ delimiter)
  (hreturn : carriageReturn ∉ delimiter)

include hne hreturn in
/-- A return is an ordinary byte of a body. -/
theorem bodyExtent_return (r : Bytes) :
    bodyExtent delimiter (carriageReturn :: r) = (bodyExtent delimiter r).grow 1 :=
  bodyExtent_ordinary (by decide) (fun h => absurd h.1 (by decide))
    (not_isPrefixOf_of_not_mem hne hreturn r)

include hne hnewline in
/-- A newline between long delimiters is an ordinary byte too. -/
theorem bodyExtent_newline (hlong : ¬ delimiter.length = 1) (r : Bytes) :
    bodyExtent delimiter (newline :: r) = (bodyExtent delimiter r).grow 1 :=
  bodyExtent_ordinary (by decide) (fun h => hlong h.2) (not_isPrefixOf_of_not_mem hne hnewline r)

include hne hnewline hreturn

/-- In front of the closing delimiter a body ends. -/
theorem endsAlike_closing {c : UInt8} {r : Bytes} (hc : c ≠ backslash)
    (hshort : ¬ (c = newline ∧ delimiter.length = 1))
    (hfront : delimiter.isPrefixOf (c :: r) = true) :
    EndsAlike (c :: r) ⟨delimiter.length, true⟩ (bodyExtent delimiter (withReturns (c :: r))) := by
  have hcnewline : c ≠ newline := by
    rintro rfl
    exact not_isPrefixOf_of_not_mem hne hnewline r hfront
  have hfront' : delimiter.isPrefixOf (withReturns (c :: r)) = true := by
    rw [isPrefixOf_withReturns hnewline hreturn, hfront]
  rw [withReturns_cons hcnewline] at hfront' ⊢
  have hread : bodyExtent delimiter (c :: withReturns r) = ⟨delimiter.length, true⟩ := by
    rw [bodyExtent.eq_def]
    exact (if_neg hc).trans ((if_neg hshort).trans (if_pos hfront'))
  have htake : (c :: r).take delimiter.length = delimiter := by
    obtain ⟨t, ht⟩ := List.isPrefixOf_iff_prefix.1 hfront
    rw [← ht, List.take_left]
  rw [hread]
  refine ⟨rfl, .of_not_mem ?_ (List.isPrefixOf_iff_prefix.1 hfront).length_le⟩
  rwa [htake]

/-- The body of a literal reaches as far as before, unless the delimiter is short and a newline is
hidden in it. -/
theorem bodyExtent_withReturns (s : Bytes)
    (h : delimiter.length = 1 → newline ∉ s.take (bodyExtent delimiter s).length) :
    EndsAlike s (bodyExtent delimiter s) (bodyExtent delimiter (withReturns s)) := by
  fun_induction bodyExtent delimiter s with
  | case1 => exact ⟨rfl, .inl rfl⟩
  | case2 => exact ⟨rfl, .inl rfl⟩
  | case3 d q ih =>
      have hih := ih fun hlength => newline_not_mem_take (t := [backslash, d]) (h hlength)
      by_cases hd : d = newline
      · subst hd
        have hlong : ¬ delimiter.length = 1 := fun hlength => h hlength (by
          simp [StringExtent.grow])
        rw [withReturns_cons (by decide), withReturns_newline, bodyExtent_backslash,
          bodyExtent_newline hne hnewline hlong]
        exact hih.grow [backslash, newline]
      · have hplain : withReturns [backslash, d] = [backslash, d] := by
          rw [withReturns_cons (by decide), withReturns_cons hd]
          rfl
        rw [withReturns_cons (by decide), withReturns_cons hd, bodyExtent_backslash]
        have hgrown := hih.grow [backslash, d]
        rwa [hplain] at hgrown
  | case4 c r hc hshort =>
      obtain ⟨rfl, hlength⟩ := hshort
      rw [withReturns_newline, bodyExtent_return hne hreturn,
        bodyExtent.eq_def delimiter (newline :: withReturns r)]
      simp [EndsAlike, hlength, hc, StringExtent.grow, Reaches]
  | case5 c r hc hshort hfront => exact endsAlike_closing hne hnewline hreturn hc hshort hfront
  | case6 c r hc hshort hfront ih =>
      have hih := ih fun hlength => newline_not_mem_take (t := [c]) (h hlength)
      by_cases hcnewline : c = newline
      · subst hcnewline
        rw [withReturns_newline, bodyExtent_return hne hreturn,
          bodyExtent_newline hne hnewline fun hlength => hshort ⟨rfl, hlength⟩]
        exact hih.grow [newline]
      · have hplain : withReturns [c] = [c] := by
          rw [withReturns_cons hcnewline]
          rfl
        have hfront' : ¬ delimiter.isPrefixOf (withReturns (c :: r)) = true := by
          rwa [isPrefixOf_withReturns hnewline hreturn]
        rw [withReturns_cons hcnewline] at hfront' ⊢
        rw [bodyExtent_ordinary hc hshort hfront']
        have hgrown := hih.grow [c]
        rwa [hplain] at hgrown

end Body

/-- A quote is no line end, so neither is anything of a delimiter. -/
theorem plain_openingDelimiter {q : UInt8} (hq : isQuote q = true) (r : Bytes) :
    newline ∉ openingDelimiter (q :: r) ∧ carriageReturn ∉ openingDelimiter (q :: r) := by
  have hnewline : newline ≠ q := fun h => absurd (h ▸ hq) (by decide)
  have hreturn : carriageReturn ≠ q := fun h => absurd (h ▸ hq) (by decide)
  rcases openingDelimiter_cons q r with ⟨h, -⟩ | ⟨h, -⟩
  · simp [h, hnewline, hreturn]
  · simp [h, hnewline, hreturn]

theorem openingDelimiter_withReturns {q : UInt8} (hq : isQuote q = true) (r : Bytes) :
    openingDelimiter (withReturns (q :: r)) = openingDelimiter (q :: r) := by
  have hnewline : newline ≠ q := fun h => absurd (h ▸ hq) (by decide)
  have hreturn : carriageReturn ≠ q := fun h => absurd (h ▸ hq) (by decide)
  have hlong := isPrefixOf_withReturns (t := [q, q, q]) (by simp [hnewline])
    (by simp [hreturn]) (q :: r)
  rw [withReturns_cons (Ne.symm hnewline)] at hlong ⊢
  rw [openingDelimiter, openingDelimiter, hlong]

/-- The opening delimiter is found again in the text of the literal. -/
theorem openingDelimiter_take {q : UInt8} {r : Bytes} {n : Nat}
    (h : (openingDelimiter (q :: r)).length ≤ n) :
    openingDelimiter ((q :: r).take n) = openingDelimiter (q :: r) := by
  have hpos := openingDelimiter_length_pos (List.cons_ne_nil q r)
  obtain ⟨k, rfl⟩ : ∃ k, n = k + 1 := ⟨n - 1, by omega⟩
  rw [List.take_succ_cons]
  rcases openingDelimiter_cons q r with ⟨hopening, hlong⟩ | ⟨hopening, hshort⟩
  · rw [hopening] at h ⊢
    have htake : [q, q, q] <+: q :: r.take k := by
      rw [← List.take_succ_cons]
      exact (List.prefix_take_iff).2 ⟨hlong, h⟩
    rw [openingDelimiter, if_pos (List.isPrefixOf_iff_prefix.2 htake)]
  · rw [hopening, openingDelimiter, if_neg]
    rw [List.isPrefixOf_iff_prefix, ← List.take_succ_cons]
    exact fun htake => hshort (htake.trans (List.take_prefix _ _))

/-- A literal reaches as far as before, from its first quote on. -/
theorem quotedExtent_withReturns {q : UInt8} (hq : isQuote q = true) (r : Bytes)
    (h : (openingDelimiter (q :: r)).length = 1 →
      newline ∉ (q :: r).take (quotedExtent (q :: r)).length) :
    EndsAlike (q :: r) (quotedExtent (q :: r)) (quotedExtent (withReturns (q :: r))) := by
  obtain ⟨hnewline, hreturn⟩ := plain_openingDelimiter hq r
  obtain ⟨body, hbody⟩ := openingDelimiter_isPrefix (q :: r)
  have hopening := openingDelimiter_withReturns hq r
  generalize hdelimiter : openingDelimiter (q :: r) = delimiter at *
  have hne : delimiter ≠ [] := by
    rw [← hdelimiter]
    exact List.length_pos_iff.1 (openingDelimiter_length_pos (List.cons_ne_nil q r))
  have hplain := withReturns_eq_self hnewline
  have hdrop : (withReturns (q :: r)).drop delimiter.length = withReturns body := by
    rw [← hbody, withReturns_append, hplain, List.drop_left]
  have hdrop' : (q :: r).drop delimiter.length = body := by rw [← hbody, List.drop_left]
  rw [quotedExtent, quotedExtent]
  simp only [hopening, hdelimiter, hdrop, hdrop']
  rw [quotedExtent] at h
  simp only [hdelimiter, hdrop'] at h
  rw [← hbody] at h ⊢
  have hextent := bodyExtent_withReturns hne hnewline hreturn body fun hlength =>
    newline_not_mem_take (h hlength)
  have hgrown := hextent.grow delimiter
  rwa [hplain] at hgrown

/-! ### Numbers -/

theorem numberTail_withReturns (hexadecimal : Bool) (last : UInt8) (s : Bytes) :
    numberTail hexadecimal last (withReturns s) = numberTail hexadecimal last s ∧
      newline ∉ s.take (numberTail hexadecimal last s) := by
  fun_induction numberTail hexadecimal last s with
  | case1 => exact ⟨rfl, List.not_mem_nil⟩
  | case2 last c r hc ih =>
      have hne : newline ≠ c := by
        rintro rfl
        exact absurd hc (by decide)
      rw [withReturns_cons (Ne.symm hne), numberTail, if_pos hc, ih.1, List.take_succ_cons]
      exact ⟨rfl, by simp [hne, ih.2]⟩
  | case3 last c r hc hsign ih =>
      have hne : newline ≠ c := by
        rintro rfl
        simp only [Bool.and_eq_true] at hsign
        exact absurd hsign.1.1 (by decide)
      rw [withReturns_cons (Ne.symm hne), numberTail, if_neg hc, if_pos hsign, ih.1,
        List.take_succ_cons]
      exact ⟨rfl, by simp [hne, ih.2]⟩
  | case4 last c r hc hsign =>
      refine ⟨?_, by simp⟩
      by_cases hne : c = newline
      · subst hne
        have hreturn : (carriageReturn == byte '+' || carriageReturn == byte '-') = false := by
          decide
        rw [withReturns_newline, numberTail, if_neg (by decide), hreturn, Bool.false_and,
          Bool.false_and, if_neg Bool.false_ne_true]
      · rw [withReturns_cons hne, numberTail, if_neg hc, if_neg hsign]

theorem numberLength_withReturns (first : UInt8) (r : Bytes) :
    numberLength first (withReturns r) = numberLength first r := by
  have hhead : ((withReturns r).head?.map lowerByte == some (byte 'x')) =
      (r.head?.map lowerByte == some (byte 'x')) := by
    cases r with
    | nil => rfl
    | cons c r =>
        by_cases hc : c = newline
        · subst hc
          rfl
        · rw [withReturns_cons hc]
          rfl
  rw [numberLength, numberLength, hhead, (numberTail_withReturns _ first r).1]

/-! ### Spellings -/

theorem operators_on_one_line : ∀ entry ∈ operators, newline ∉ entry.1 ∧ carriageReturn ∉ entry.1 := by
  decide

theorem operatorAt?_withReturns (s : Bytes) : operatorAt? (withReturns s) = operatorAt? s := by
  have hsame : ∀ entry ∈ operators,
      entry.1.isPrefixOf (withReturns s) = entry.1.isPrefixOf s := fun entry hentry =>
    isPrefixOf_withReturns (operators_on_one_line entry hentry).1 (operators_on_one_line entry hentry).2 s
  rw [operatorAt?, operatorAt?, ← List.head?_filter, ← List.head?_filter, List.filter_congr hsame]

/-! ### Lexemes -/

namespace Lexeme

/-- A literal with letters in front is the same in the text with returns. -/
theorem ofQuoted_withReturns {mark : Bytes} (hmark : ∀ c ∈ mark, isNameByte c = true) {q : UInt8}
    (hq : isQuote q = true) (r : Bytes)
    (h : ¬ BreaksLine ((mark ++ q :: r).take (ofQuoted mark.length (mark ++ q :: r)).length)) :
    let x := ofQuoted mark.length (mark ++ q :: r)
    let x' := ofQuoted mark.length (withReturns (mark ++ q :: r))
    x'.kind = x.kind ∧ x'.cause = x.cause ∧ Reaches (mark ++ q :: r) x.length x'.length := by
  have hnewline : newline ∉ mark := fun hmem => absurd (hmark newline hmem) (by decide)
  have hplain := withReturns_eq_self hnewline
  have hdrop : (mark ++ q :: r).drop mark.length = q :: r := List.drop_left
  have hlength : (ofQuoted mark.length (mark ++ q :: r)).length =
      mark.length + (quotedExtent (q :: r)).length := by
    simp only [ofQuoted, hdrop, StringExtent.grow, Nat.add_comm]
  have hpos := quotedExtent_length_pos (List.cons_ne_nil q r)
  have hquote : isNameByte q = false := by
    simp only [isQuote, Bool.or_eq_true, beq_iff_eq] at hq
    rcases hq with rfl | rfl
    · decide
    · decide
  have hshort : (openingDelimiter (q :: r)).length = 1 →
      newline ∉ (q :: r).take (quotedExtent (q :: r)).length := by
    intro hone hmem
    refine h ⟨?_, ?_⟩
    · have hle : (openingDelimiter (q :: r)).length ≤ (quotedExtent (q :: r)).length := by omega
      have hopening := openingDelimiter_take hle
      obtain ⟨k, hk⟩ : ∃ k, (quotedExtent (q :: r)).length = k + 1 :=
        ⟨(quotedExtent (q :: r)).length - 1, by omega⟩
      rw [hlength, List.take_length_add_append, List.dropWhile_append_of_pos hmark]
      rw [hk, List.take_succ_cons] at hopening ⊢
      rw [List.dropWhile_cons_of_neg (by simp [hquote]), hopening, hone]
    · rw [hlength, List.take_length_add_append]
      exact List.mem_append_right _ hmem
  obtain ⟨hclosed, hreaches⟩ := quotedExtent_withReturns hq r hshort
  simp only [ofQuoted, withReturns_append, hplain, List.drop_left, StringExtent.grow, hclosed]
  exact ⟨trivial, trivial, hreaches.grow mark rfl (by rw [hplain])⟩

/-- The lexeme of a word is the same in the text with returns. -/
theorem ofWord_withReturns (s : Bytes)
    (h : (ofWord s).kind = .string → ¬ BreaksLine (s.take (ofWord s).length)) :
    (ofWord (withReturns s)).kind = (ofWord s).kind ∧
      (ofWord (withReturns s)).cause = (ofWord s).cause ∧
        Reaches s (ofWord s).length (ofWord (withReturns s)).length := by
  have hword := takeWhile_withReturns (p := isNameByte) (by decide) (by decide) s
  have hrest := dropWhile_withReturns (p := isNameByte) (by decide) (by decide) s
  have hquote := head?_withReturns (p := isQuote) (by decide) (by decide)
    (s.dropWhile isNameByte)
  have hsplit := List.takeWhile_append_dropWhile (p := isNameByte) (l := s)
  unfold ofWord at h ⊢
  simp only [hword, hrest, hquote]
  split
  next hliteral =>
    rw [if_pos hliteral] at h
    rw [Bool.and_eq_true] at hliteral
    cases hbehind : s.dropWhile isNameByte with
    | nil => simp [hbehind] at hliteral
    | cons q t =>
        rw [hbehind] at hsplit hliteral
        have hmark : ∀ c ∈ s.takeWhile isNameByte, isNameByte c = true := fun c hc =>
          List.all_eq_true.1 List.all_takeWhile c hc
        generalize s.takeWhile isNameByte = mark at hsplit hmark h ⊢
        subst hsplit
        exact ofQuoted_withReturns hmark (by simpa using hliteral.1) t (h rfl)
  next hname =>
    refine ⟨rfl, rfl, .of_not_mem ?_ (takeWhile_isNameByte_length_le s)⟩
    rw [← List.prefix_iff_eq_take.1 (List.takeWhile_prefix isNameByte)]
    exact newline_not_mem_takeWhile (by decide) s

/-- The lexeme at the beginning of a text is the same in the text with returns, and reaches as far. -/
theorem first_withReturns {c : UInt8} {r : Bytes} (hc : c ≠ newline)
    (h : (first c r).kind = .string → ¬ BreaksLine ((c :: r).take (first c r).length)) :
    (first c (withReturns r)).kind = (first c r).kind ∧
      (first c (withReturns r)).cause = (first c r).cause ∧
        Reaches (c :: r) (first c r).length (first c (withReturns r)).length := by
  have hdigit := head?_withReturns (p := isDigit) (by decide) (by decide) r
  have hoperator := operatorAt?_withReturns (c :: r)
  have hword := ofWord_withReturns (c :: r)
  rw [withReturns_cons hc] at hoperator hword
  unfold first at h ⊢
  rw [hdigit, hoperator]
  split
  next hq =>
    rw [if_pos hq] at h
    have hquoted := @ofQuoted_withReturns [] (List.forall_mem_nil _) c hq r (h rfl)
    rw [List.nil_append, withReturns_cons hc] at hquoted
    exact hquoted
  next hq =>
    rw [if_neg hq] at h
    split
    next hstart =>
      rw [if_pos hstart] at h
      exact hword h
    next hstart =>
      split
      · rw [numberLength_withReturns]
        refine ⟨rfl, rfl, .of_not_mem ?_ ?_⟩
        · rw [numberLength, List.take_succ_cons]
          simp [Ne.symm hc, (numberTail_withReturns _ c r).2]
        · have htail := numberTail_le (c == byte '0' && (r.head?.map lowerByte == some (byte 'x'))) c r
          simp only [numberLength, List.length_cons]
          omega
      · split
        next spelling kind hfind =>
          have hfound := List.find?_some hfind
          obtain ⟨t, ht⟩ := List.isPrefixOf_iff_prefix.1 hfound
          have hplain := (operators_on_one_line _ (List.mem_of_find?_eq_some hfind)).1
          refine ⟨rfl, rfl, .of_not_mem ?_ ?_⟩
          · rw [← ht, List.take_left]
            exact hplain
          · rw [← ht, List.length_append]
            exact Nat.le_add_right _ _
        · exact ⟨rfl, rfl, .of_not_mem (by simp [Ne.symm hc]) (by simp)⟩

end Lexeme

end DocLint
