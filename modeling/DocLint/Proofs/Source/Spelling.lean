import DocLint.Proofs.Text.Edges
import DocLint.Source.Lexeme
import Mathlib.Data.List.Find

/-!
# The spellings of lexemes

What a lexeme looks like, one class after the other, said without the lexer: words, numbers, closed
string literals, operators and delimiters.  The lexer reads a spelling back as a whole wherever a
space or a newline follows it.

* `Spells`: the spellings of each kind of token.
* `first_of_spells`: a spelling in front of a space or a newline is read as one lexeme, without a
  fault.
-/

namespace DocLint

open Bytes

/-- Bodies of string literals that the delimiter closes: it does not occur before their end, where a
backslash hides the byte behind it, and a body between short delimiters stands on one line. -/
inductive IsBody (delimiter : Bytes) : Bytes → Prop
  | nil : IsBody delimiter []
  | escape (c : UInt8) {r : Bytes} (rest : IsBody delimiter r) :
      IsBody delimiter (backslash :: c :: r)
  | plain {c : UInt8} {r : Bytes} (hc : c ≠ backslash)
      (hline : delimiter.length = 1 → c ≠ newline)
      (hopen : ¬ delimiter <+: c :: (r ++ delimiter)) (rest : IsBody delimiter r) :
      IsBody delimiter (c :: r)

/-- The delimiters of string literals: one quote or three. -/
def IsDelimiter (delimiter : Bytes) : Prop :=
  ∃ q, isQuote q = true ∧ (delimiter = [q] ∨ delimiter = [q, q, q])

/-- The spellings of lexemes, by kind. -/
inductive Spells : TokenKind → Bytes → Prop
  /-- A name or a keyword. -/
  | word {c : UInt8} {r : Bytes} (hc : isNameStart c = true) (hr : ∀ d ∈ r, isNameByte d = true) :
      Spells (.ofWord (c :: r)) (c :: r)
  /-- A number that is read to its end. -/
  | number {c : UInt8} {r : Bytes} (hc : isDigit c || (c == byte '.' && r.head?.any isDigit))
      (hr : numberLength c r = r.length + 1) : Spells .number (c :: r)
  /-- A string literal, with or without letters in front. -/
  | string {mark delimiter body : Bytes} (hmark : mark = [] ∨ isStringMark mark = true)
      (hdelimiter : IsDelimiter delimiter) (hbody : IsBody delimiter body) :
      Spells .string (mark ++ (delimiter ++ (body ++ delimiter)))
  /-- An operator or a delimiter. -/
  | operator {kind : TokenKind} {spelling : Bytes} (h : (spelling, kind) ∈ operators) :
      Spells kind spelling

/-- A byte that separates lexemes. -/
def IsSeparation (b : UInt8) : Prop := b = space ∨ b = newline

/-- A byte that a lexeme may begin with. -/
def IsLexemeStart (c : UInt8) : Prop :=
  isInlineBlank c = false ∧ c ≠ newline ∧ c ≠ backslash ∧ c ≠ byte '#'

/-! ### Operators -/

theorem isPrefixOf_append_separation {t : Bytes} {b : UInt8} (hb : b ∉ t) (s rest : Bytes) :
    t.isPrefixOf (s ++ b :: rest) = t.isPrefixOf s := by
  induction t generalizing s with
  | nil => simp
  | cons c t ih =>
      rw [List.mem_cons, not_or] at hb
      cases s with
      | nil => simp [List.isPrefixOf, Ne.symm hb.1]
      | cons d s => simp [List.isPrefixOf, ih hb.2]

theorem separation_not_mem_operators {b : UInt8} (hb : IsSeparation b) {entry : Bytes × TokenKind}
    (h : entry ∈ operators) : b ∉ entry.1 := by
  have hall : ∀ entry ∈ operators, space ∉ entry.1 ∧ newline ∉ entry.1 := by decide
  rcases hb with rfl | rfl
  · exact (hall entry h).1
  · exact (hall entry h).2

/-- No other operator in front of it in the table begins an operator. -/
theorem operatorAt?_of_mem {kind : TokenKind} {spelling : Bytes} (h : (spelling, kind) ∈ operators)
    {b : UInt8} (hb : IsSeparation b) (rest : Bytes) :
    operatorAt? (spelling ++ b :: rest) = some (spelling, kind) := by
  have hall : ∀ entry ∈ operators,
      operators.find? (fun e => e.1.isPrefixOf entry.1) = some entry := by decide
  rw [operatorAt?, List.find?_congr fun e he =>
    isPrefixOf_append_separation (separation_not_mem_operators hb he) spelling rest]
  exact hall _ h

/-! ### Numbers -/

/-- A number ends in front of a space or a newline. -/
theorem numberTail_append {hexadecimal : Bool} {last : UInt8} {r : Bytes}
    (h : numberTail hexadecimal last r = r.length) {b : UInt8} (hb : IsSeparation b)
    (rest : Bytes) : numberTail hexadecimal last (r ++ b :: rest) = r.length := by
  induction r generalizing last with
  | nil =>
      rcases hb with rfl | rfl
      · rfl
      · rfl
  | cons c r ih =>
      rw [List.cons_append, List.length_cons]
      rw [numberTail, List.length_cons] at h
      rw [numberTail]
      split at h
      next hc => rw [if_pos hc, ih (by omega)]
      next hc =>
        split at h
        next hsign => rw [if_neg hc, if_pos hsign, ih (by omega)]
        · omega

theorem numberLength_append {c : UInt8} {r : Bytes} (h : numberLength c r = r.length + 1)
    {b : UInt8} (hb : IsSeparation b) (rest : Bytes) :
    numberLength c (r ++ b :: rest) = r.length + 1 := by
  -- What follows the number does not turn it into a hexadecimal one.
  have hhex : ((r ++ b :: rest).head?.map lowerByte == some (byte 'x')) =
      (r.head?.map lowerByte == some (byte 'x')) := by
    cases r with
    | nil =>
        rcases hb with rfl | rfl
        · rfl
        · rfl
    | cons d r => rfl
  simp only [numberLength, hhex] at h ⊢
  rw [numberTail_append (by omega) hb]

/-! ### String literals -/

/-- A closed body is read up to and with its delimiter. -/
theorem bodyExtent_of_isBody {delimiter body : Bytes} (hdelimiter : IsDelimiter delimiter)
    (h : IsBody delimiter body) (rest : Bytes) :
    bodyExtent delimiter (body ++ (delimiter ++ rest)) =
      ⟨body.length + delimiter.length, true⟩ := by
  induction h with
  | nil =>
      obtain ⟨q, hq, hquotes⟩ := hdelimiter
      have hplain : q ≠ backslash ∧ q ≠ newline := by
        refine ⟨?_, ?_⟩
        · rintro rfl
          exact absurd hq (by decide)
        · rintro rfl
          exact absurd hq (by decide)
      have hprefix : delimiter.isPrefixOf (delimiter ++ rest) = true :=
        List.isPrefixOf_iff_prefix.2 (List.prefix_append _ _)
      obtain ⟨r, hr⟩ : ∃ r, delimiter ++ rest = q :: r := by
        rcases hquotes with rfl | rfl
        · exact ⟨_, rfl⟩
        · exact ⟨_, rfl⟩
      rw [hr] at hprefix
      rw [List.nil_append, hr, bodyExtent.eq_def]
      dsimp only
      rw [if_neg hplain.1, if_neg fun h => hplain.2 h.1, if_pos hprefix]
      simp
  | escape c _ ih =>
      simp only [List.cons_append, bodyExtent, if_true, ih, StringExtent.grow, List.length_cons]
      congr 1
      omega
  | @plain c r hc hline hopen _ ih =>
      have hlater : ¬ delimiter.isPrefixOf (c :: (r ++ (delimiter ++ rest))) = true := by
        intro hp
        -- A delimiter in front of all that follows would end before the closing one does.
        refine hopen (List.prefix_of_prefix_length_le (List.isPrefixOf_iff_prefix.1 hp)
          ⟨rest, by simp⟩ ?_)
        simp only [List.length_cons, List.length_append]
        omega
      rw [List.cons_append, bodyExtent.eq_def]
      dsimp only
      rw [if_neg hc, if_neg fun h => hline h.2 h.1, if_neg hlater, ih]
      simp only [StringExtent.grow, List.length_cons]
      congr 1
      omega

/-- The opening delimiter of a literal is recognised. -/
theorem openingDelimiter_of_isBody {delimiter body : Bytes} (hdelimiter : IsDelimiter delimiter)
    (h : IsBody delimiter body) {b : UInt8} (hb : IsSeparation b) (rest : Bytes) :
    openingDelimiter (delimiter ++ (body ++ (delimiter ++ b :: rest))) = delimiter := by
  obtain ⟨q, hq, rfl | rfl⟩ := hdelimiter
  · have hqb : q ≠ b := by
      rintro rfl
      rcases hb with rfl | rfl
      · exact absurd hq (by decide)
      · exact absurd hq (by decide)
    have hqs : q ≠ backslash := by
      rintro rfl
      exact absurd hq (by decide)
    -- Three quotes in a row would be a quote in front of the body's end.
    have hshort : ¬ [q, q, q].isPrefixOf (q :: (body ++ (q :: b :: rest))) = true := by
      cases h with
      | nil => simp [hqb]
      | escape c _ => simp [hqs]
      | @plain c r _ _ hopen _ =>
          have hne : q ≠ c := by
            rintro rfl
            exact hopen (List.prefix_append [q] _)
          simp [List.isPrefixOf, hne]
    simp only [List.cons_append, List.nil_append, openingDelimiter]
    exact if_neg hshort
  · simp [openingDelimiter]

/-- A literal with letters in front is read as a whole. -/
theorem ofQuoted_of_isBody (mark : Bytes) {delimiter body : Bytes} (hdelimiter : IsDelimiter delimiter)
    (h : IsBody delimiter body) {b : UInt8} (hb : IsSeparation b) (rest : Bytes) :
    Lexeme.ofQuoted mark.length (mark ++ (delimiter ++ (body ++ delimiter)) ++ b :: rest) =
      ⟨.string, (mark ++ (delimiter ++ (body ++ delimiter))).length, none⟩ := by
  have hopening := openingDelimiter_of_isBody hdelimiter h hb rest
  have hextent := bodyExtent_of_isBody hdelimiter h (b :: rest)
  simp only [List.append_assoc]
  rw [Lexeme.ofQuoted, List.drop_left]
  simp only [quotedExtent, hopening, List.drop_left, hextent, StringExtent.grow, if_true,
    List.length_append]
  congr 1
  omega

/-- The letters in front of a literal are letters of a name. -/
theorem isNameByte_of_isStringMark {mark : Bytes} (h : isStringMark mark = true) :
    (∃ c r, mark = c :: r ∧ isNameStart c = true) ∧ ∀ c ∈ mark, isNameByte c = true := by
  have hlower : [byte 'r', byte 'b', byte 'f', byte 'u'].all isLower = true := rfl
  have hletter : ∀ c : UInt8, (lowerByte c == byte 'r' || lowerByte c == byte 'b' ||
      lowerByte c == byte 'f' || lowerByte c == byte 'u') = true → isNameStart c = true := by
    intro c hc
    have halpha : isAlpha c = true :=
      isAlpha_of_isLower_lowerByte (List.all_eq_true.1 hlower _ (by simpa [or_assoc] using hc))
    rw [isNameStart, halpha, Bool.true_or, Bool.true_or]
  have hname {c : UInt8} (hc : isNameStart c = true) : isNameByte c = true := by
    simp [isNameByte, hc]
  unfold isStringMark at h
  dsimp only at h
  split at h
  next c =>
    have hc : isNameStart c = true := hletter c (by grind)
    exact ⟨⟨c, [], rfl, hc⟩, by simpa using hname hc⟩
  next c d =>
    have hc : isNameStart c = true := hletter c (by grind)
    have hd : isNameStart d = true := hletter d (by grind)
    exact ⟨⟨c, [d], rfl, hc⟩, by simpa using ⟨hname hc, hname hd⟩⟩
  · cases h

/-! ### Lexemes -/

theorem isLexemeStart_of_not_mem {c : UInt8}
    (h : c ∉ [space, tab, formFeed, carriageReturn, newline, backslash, byte '#']) :
    IsLexemeStart c := by
  simp only [List.mem_cons, List.not_mem_nil, or_false, not_or] at h
  simp [IsLexemeStart, isInlineBlank, h]

theorem isNameStart_eq_false_of_isQuote {c : UInt8} (h : isQuote c = true) :
    isNameStart c = false := by
  simp only [isQuote, Bool.or_eq_true, beq_iff_eq] at h
  rcases h with rfl | rfl
  · rfl
  · rfl

theorem isDigit_eq_false_of_isQuote {c : UInt8} (h : isQuote c = true) : isDigit c = false := by
  simp only [isQuote, Bool.or_eq_true, beq_iff_eq] at h
  rcases h with rfl | rfl
  · rfl
  · rfl

theorem isNameStart_eq_false_of_isDigit {c : UInt8} (h : isDigit c = true) :
    isNameStart c = false := by
  have hunderscore : byte '_' = 95 := rfl
  simp only [isDigit, isNameStart, isAlpha, isUpper, isLower, hunderscore] at h ⊢
  grind

theorem isLexemeStart_of_isQuote {c : UInt8} (h : isQuote c = true) : IsLexemeStart c :=
  isLexemeStart_of_not_mem (not_mem_of_class rfl h)

theorem isNameStart_plain {c : UInt8} (h : isNameStart c = true) :
    IsLexemeStart c ∧ isQuote c = false := by
  refine ⟨isLexemeStart_of_not_mem (not_mem_of_class rfl h), ?_⟩
  by_contra hquote
  rw [Bool.not_eq_false] at hquote
  simp [isNameStart_eq_false_of_isQuote hquote] at h

theorem number_plain {c : UInt8} (h : (isDigit c || c == byte '.') = true) :
    IsLexemeStart c ∧ isQuote c = false ∧ isNameStart c = false := by
  rw [Bool.or_eq_true, beq_iff_eq] at h
  rcases h with hdigit | rfl
  · refine ⟨isLexemeStart_of_not_mem (not_mem_of_class rfl hdigit), ?_,
      isNameStart_eq_false_of_isDigit hdigit⟩
    by_contra hquote
    rw [Bool.not_eq_false] at hquote
    simp [isDigit_eq_false_of_isQuote hquote] at hdigit
  · exact ⟨isLexemeStart_of_not_mem (by decide), rfl, rfl⟩

/-- Operators begin with bytes of their own, and a dot among them with no digit behind it. -/
theorem operators_plain {c : UInt8} {r : Bytes} {kind : TokenKind}
    (h : (c :: r, kind) ∈ operators) :
    IsLexemeStart c ∧ isQuote c = false ∧ isNameStart c = false ∧ isDigit c = false ∧
      r.head?.any isDigit = false := by
  have hall : (operators.all fun entry => entry.1.head?.all fun c =>
      !List.contains [space, tab, formFeed, carriageReturn, newline, backslash, byte '#'] c &&
        !isQuote c && !isNameStart c && !isDigit c &&
          !entry.1.tail.head?.any isDigit) = true := by decide
  have hentry := List.all_eq_true.1 hall _ h
  simp only [List.head?_cons, Option.all_some, List.tail_cons, Bool.and_eq_true, Bool.not_eq_true',
    List.contains_eq_mem, decide_eq_false_iff_not] at hentry
  obtain ⟨⟨⟨⟨hstart, hquote⟩, hname⟩, hdigit⟩, hbehind⟩ := hentry
  exact ⟨isLexemeStart_of_not_mem hstart, hquote, hname, hdigit, hbehind⟩

theorem separation_plain {b : UInt8} (hb : IsSeparation b) :
    isNameByte b = false ∧ isQuote b = false ∧ isDigit b = false := by
  rcases hb with rfl | rfl
  · decide
  · decide

/-- A run of name bytes ends in front of any other byte. -/
theorem span_isNameByte {word : Bytes} (hword : ∀ c ∈ word, isNameByte c = true) {b : UInt8}
    (hb : isNameByte b = false) (rest : Bytes) :
    (word ++ b :: rest).takeWhile isNameByte = word ∧
      (word ++ b :: rest).dropWhile isNameByte = b :: rest := by
  constructor
  · rw [List.takeWhile_append_of_pos hword, List.takeWhile_cons_of_neg (by simp [hb]),
      List.append_nil]
  · rw [List.dropWhile_append_of_pos hword, List.dropWhile_cons_of_neg (by simp [hb])]

section First

variable {b : UInt8} (hb : IsSeparation b) (rest : Bytes)
include hb

theorem first_word {c : UInt8} {r : Bytes} (hc : isNameStart c = true)
    (hr : ∀ d ∈ r, isNameByte d = true) :
    Lexeme.first c (r ++ b :: rest) = ⟨.ofWord (c :: r), (c :: r).length, none⟩ := by
  obtain ⟨hbname, hbquote, -⟩ := separation_plain hb
  have hquote := (isNameStart_plain hc).2
  have hword : ∀ d ∈ c :: r, isNameByte d = true := by
    intro d hd
    rcases List.mem_cons.1 hd with rfl | hd
    · simp [isNameByte, hc]
    · exact hr d hd
  obtain ⟨htake, hdrop⟩ := span_isNameByte hword hbname rest
  rw [List.cons_append] at htake hdrop
  simp [Lexeme.first, hquote, hc, Lexeme.ofWord, htake, hdrop, hbquote]

theorem first_number {c : UInt8} {r : Bytes}
    (hc : (isDigit c || (c == byte '.' && r.head?.any isDigit)) = true)
    (hr : numberLength c r = r.length + 1) :
    IsLexemeStart c ∧ Lexeme.first c (r ++ b :: rest) = ⟨.number, (c :: r).length, none⟩ := by
  have hplain : (isDigit c || c == byte '.') = true := by grind
  obtain ⟨hstart, hquote, hname⟩ := number_plain hplain
  have hfirst : (isDigit c || (c == byte '.' && (r ++ b :: rest).head?.any isDigit)) = true := by
    cases r with
    | nil =>
        have hdigit : isDigit c = true := by simpa using hc
        rw [hdigit, Bool.true_or]
    | cons d r => exact hc
  refine ⟨hstart, ?_⟩
  rw [Lexeme.first, if_neg (by simp [hquote]), if_neg (by simp [hname]), if_pos hfirst,
    numberLength_append hr hb]
  rfl

/-- A literal is read from its first quote on, or from the letters in front of that. -/
theorem first_string {mark delimiter body : Bytes} (hmark : mark = [] ∨ isStringMark mark = true)
    (hdelimiter : IsDelimiter delimiter) (hbody : IsBody delimiter body) :
    ∃ c r, mark ++ (delimiter ++ (body ++ delimiter)) = c :: r ∧ IsLexemeStart c ∧
      Lexeme.first c (r ++ b :: rest) =
        ⟨.string, (mark ++ (delimiter ++ (body ++ delimiter))).length, none⟩ := by
  have hquoted := ofQuoted_of_isBody mark hdelimiter hbody hb rest
  obtain ⟨q, hq, hquotes⟩ := hdelimiter
  obtain ⟨tail, htail⟩ : ∃ tail, delimiter ++ (body ++ delimiter) = q :: tail := by
    rcases hquotes with rfl | rfl
    · exact ⟨_, rfl⟩
    · exact ⟨_, rfl⟩
  rw [htail] at hquoted ⊢
  rcases hmark with rfl | hmark
  · refine ⟨q, tail, rfl, isLexemeStart_of_isQuote hq, ?_⟩
    rw [Lexeme.first, if_pos hq]
    exact hquoted
  · obtain ⟨⟨c, r, rfl, hc⟩, hletters⟩ := isNameByte_of_isStringMark hmark
    obtain ⟨hstart, hquote⟩ := isNameStart_plain hc
    have hqname : isNameByte q = false := by
      rw [isNameByte, isNameStart_eq_false_of_isQuote hq, isDigit_eq_false_of_isQuote hq,
        Bool.or_false]
    obtain ⟨htake, hdrop⟩ := span_isNameByte hletters hqname (tail ++ b :: rest)
    refine ⟨c, r ++ q :: tail, rfl, hstart, ?_⟩
    simp only [List.cons_append, List.append_assoc] at htake hdrop hquoted ⊢
    rw [Lexeme.first, if_neg (by simp [hquote]), if_pos hc, Lexeme.ofWord]
    simp only [htake, hdrop, List.head?_cons, Option.any_some, hq, hmark, Bool.and_self, if_true]
    exact hquoted

theorem first_operator {c : UInt8} {r : Bytes} {kind : TokenKind}
    (hmem : (c :: r, kind) ∈ operators) :
    IsLexemeStart c ∧ Lexeme.first c (r ++ b :: rest) = ⟨kind, (c :: r).length, none⟩ := by
  obtain ⟨hstart, hquote, hname, hdigit, hbehind⟩ := operators_plain hmem
  have hdot : (r ++ b :: rest).head?.any isDigit = false := by
    cases r with
    | nil => simpa using (separation_plain hb).2.2
    | cons d r => exact hbehind
  have hop := operatorAt?_of_mem hmem hb rest
  rw [List.cons_append] at hop
  refine ⟨hstart, ?_⟩
  rw [Lexeme.first, if_neg (by simp [hquote]), if_neg (by simp [hname]),
    if_neg (by simp only [hdigit, hdot, Bool.and_false, Bool.or_false, Bool.false_eq_true,
      not_false_eq_true]), hop]

/-- A spelling in front of a space or a newline is read as one lexeme, without a fault. -/
theorem first_of_spells {kind : TokenKind} {s : Bytes} (h : Spells kind s) :
    ∃ c r, s = c :: r ∧ IsLexemeStart c ∧
      Lexeme.first c (r ++ b :: rest) = ⟨kind, s.length, none⟩ := by
  cases h with
  | word hc hr => exact ⟨_, _, rfl, (isNameStart_plain hc).1, first_word hb rest hc hr⟩
  | number hc hr => exact ⟨_, _, rfl, first_number hb rest hc hr⟩
  | string hmark hdelimiter hbody => exact first_string hb rest hmark hdelimiter hbody
  | operator hmem =>
      obtain ⟨c, r, rfl⟩ := List.exists_cons_of_ne_nil (operators_ne_nil hmem)
      exact ⟨c, r, rfl, first_operator hb rest hmem⟩

end First

end DocLint
