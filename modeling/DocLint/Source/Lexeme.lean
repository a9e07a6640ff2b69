import DocLint.Source.Fault

/-!
# Lexemes

What stands at the beginning of a text: blanks, a comment, or a lexeme of some kind.  Each question
is answered by a length, so that a lexeme is always a piece of the text itself.

* `gapLength_le`, `Lexeme.length_le`: no answer is longer than the text.
* `Lexeme.length_pos`: a lexeme has at least one byte, so that reading lexemes ends.
-/

namespace DocLint

open Bytes

/-- Letters, the underscore and every byte beyond ASCII. -/
def isNameStart (c : UInt8) : Bool := isAlpha c || c == byte '_' || 0x80 ≤ c

/-- A byte that continues a name. -/
def isNameByte (c : UInt8) : Bool := isNameStart c || isDigit c

/-! ### Blanks and comments -/

/-- A blank that does not end the line. -/
def isInlineBlank (c : UInt8) : Bool :=
  c == space || c == tab || c == formFeed || c == carriageReturn

/-- The length of the blanks in front, escaped line ends included. -/
def gapLength : Bytes → Nat
  | [] => 0
  | c :: r =>
    if isInlineBlank c then gapLength r + 1
    else if c = backslash then
      match r with
      | [] => 0
      | d :: q =>
        if d = newline then gapLength q + 2
        else if d = carriageReturn then
          match q with
          | [] => 0
          | e :: rest => if e = newline then gapLength rest + 3 else 0
        else 0
    else 0

/-- The length of a comment: the rest of the line. -/
def commentLength (s : Bytes) : Nat := (s.takeWhile (· ≠ newline)).length

/-- A byte of a line's indentation. -/
def isIndentation (c : UInt8) : Bool := c == space || c == tab || c == formFeed

/-- The column that an indentation leads to: a tab goes on to the next multiple of eight, a form
feed back to zero.  Columns are words, which wrap around. -/
def indentationWidth (s : Bytes) : Nat :=
  let width : UInt32 := s.foldl (fun width c =>
    if c = space then width + 1
    else if c = tab then (width / 8 + 1) * 8
    else 0) 0
  width.toNat

/-! ### String literals -/

/-- The letters that may stand before the quotes of a literal: at most one for raw text and one for
the kind of the literal, in either order; `u` stands alone. -/
def isStringMark (word : Bytes) : Bool :=
  let raw (c : UInt8) : Bool := lowerByte c == byte 'r'
  let kind (c : UInt8) : Bool := lowerByte c == byte 'b' || lowerByte c == byte 'f'
  match word with
  | [c] => raw c || kind c || lowerByte c == byte 'u'
  | [c, d] => (raw c && kind d) || (kind c && raw d)
  | _ => false

/-- How far a literal reaches, and whether its closing delimiter was found. -/
structure StringExtent where
  length : Nat
  closed : Bool
deriving DecidableEq, Repr

namespace StringExtent

/-- The extent with bytes added in front. -/
def grow (e : StringExtent) (n : Nat) : StringExtent := ⟨e.length + n, e.closed⟩

end StringExtent

/-- The extent of a literal's body and closing delimiter.  A backslash hides the next byte; a
literal with a short delimiter ends without it at the end of the line. -/
def bodyExtent (delimiter : Bytes) : Bytes → StringExtent
  | [] => ⟨0, false⟩
  | c :: r =>
    if c = backslash then
      -- The byte behind a backslash is passed over unseen, be it a quote or a newline.
      match r with
      | [] => ⟨1, false⟩
      | _ :: q => (bodyExtent delimiter q).grow 2
    else if c = newline ∧ delimiter.length = 1 then ⟨0, false⟩
    else if delimiter.isPrefixOf (c :: r) then ⟨delimiter.length, true⟩
    else (bodyExtent delimiter r).grow 1

/-- The opening delimiter of a text that begins with a quote: three equal quotes, else one. -/
def openingDelimiter (s : Bytes) : Bytes :=
  match s with
  | [] => []
  | q :: _ => if [q, q, q].isPrefixOf s then [q, q, q] else [q]

/-- The extent of a literal from its first quote on. -/
def quotedExtent (s : Bytes) : StringExtent :=
  let delimiter := openingDelimiter s
  (bodyExtent delimiter (s.drop delimiter.length)).grow delimiter.length

/-! ### Numbers -/

/-- The length of the rest of a number after the byte `last`: letters, digits and dots, and a sign
right after an exponent mark unless the number is hexadecimal. -/
def numberTail (hexadecimal : Bool) : UInt8 → Bytes → Nat
  | _, [] => 0
  | last, c :: r =>
    if isNameByte c || c == byte '.' then numberTail hexadecimal c r + 1
    else if (c == byte '+' || c == byte '-') && !hexadecimal && lowerByte last == byte 'e' then
      numberTail hexadecimal c r + 1
    else 0

/-- The length of a number that begins with the byte `first`. -/
def numberLength (first : UInt8) (r : Bytes) : Nat :=
  let hexadecimal := first == byte '0' && (r.head?.map lowerByte == some (byte 'x'))
  numberTail hexadecimal first r + 1

/-! ### Operators and delimiters -/

/-- The spellings of operators and delimiters with their kinds, longer spellings first. -/
def operators : List (Bytes × TokenKind) :=
  [(ascii "...", .ellipsis), (ascii "**=", .operator), (ascii "//=", .operator),
    (ascii "<<=", .operator), (ascii ">>=", .operator),
    (ascii ":=", .colonAssign), (ascii "==", .operator), (ascii "@=", .operator),
    (ascii "->", .arrow), (ascii "-=", .operator), (ascii "**", .doubleStar),
    (ascii "*=", .operator), (ascii "//", .operator), (ascii "/=", .operator),
    (ascii "<<", .operator), (ascii "<=", .operator), (ascii ">>", .operator),
    (ascii ">=", .operator), (ascii "+=", .operator), (ascii "%=", .operator),
    (ascii "&=", .operator), (ascii "|=", .operator), (ascii "^=", .operator),
    (ascii "!=", .operator),
    (ascii "(", .leftParen), (ascii ")", .rightParen), (ascii "[", .leftBracket),
    (ascii "]", .rightBracket), (ascii "\x7b", .leftBrace), (ascii "\x7d", .rightBrace),
    (ascii ",", .comma), (ascii ":", .colon), (ascii ";", .semicolon), (ascii ".", .dot),
    (ascii "=", .assign), (ascii "@", .atSign), (ascii "-", .operator), (ascii "*", .star),
    (ascii "/", .slash), (ascii "<", .operator), (ascii ">", .operator), (ascii "+", .operator),
    (ascii "%", .operator), (ascii "&", .operator), (ascii "|", .operator), (ascii "^", .operator),
    (ascii "~", .operator)]

/-- The longest operator or delimiter that the text begins with. -/
def operatorAt? (s : Bytes) : Option (Bytes × TokenKind) :=
  operators.find? fun entry => entry.1.isPrefixOf s

/-! ### Lexemes -/

/-- The kind and the length of a lexeme, and what is wrong with it. -/
structure Lexeme where
  kind : TokenKind
  length : Nat
  cause : Option FaultCause := none
deriving DecidableEq, Repr

namespace Lexeme

/-- The lexeme of a literal whose quotes begin after `n` bytes. -/
def ofQuoted (n : Nat) (s : Bytes) : Lexeme :=
  let extent := (quotedExtent (s.drop n)).grow n
  ⟨.string, extent.length, if extent.closed then none else some .unterminatedString⟩

/-- The lexeme of a word: a name, a keyword, or a literal with the word in front. -/
def ofWord (s : Bytes) : Lexeme :=
  let word := s.takeWhile isNameByte
  let rest := s.dropWhile isNameByte
  if rest.head?.any isQuote && isStringMark word then ofQuoted word.length s
  else ⟨.ofWord word, word.length, none⟩

/-- The lexeme at the beginning of the text `c :: r`. -/
def first (c : UInt8) (r : Bytes) : Lexeme :=
  if isQuote c then ofQuoted 0 (c :: r)
  else if isNameStart c then ofWord (c :: r)
  else if isDigit c || (c == byte '.' && r.head?.any isDigit) then
    ⟨.number, numberLength c r, none⟩
  else
    match operatorAt? (c :: r) with
    | some (spelling, kind) => ⟨kind, spelling.length, none⟩
    | none => ⟨.invalid, 1, some (.unexpectedByte c)⟩

end Lexeme

/-! ### Bounds -/

/-- The blanks in front are part of the text. -/
theorem gapLength_le : ∀ s : Bytes, gapLength s ≤ s.length
  | [] => Nat.le_refl _
  | c :: r => by
    unfold gapLength
    split
    · exact Nat.succ_le_succ (gapLength_le r)
    · split
      · match r with
        | [] => exact Nat.zero_le _
        | d :: q =>
          dsimp only
          split
          · exact Nat.succ_le_succ (Nat.succ_le_succ (gapLength_le q))
          · split
            · match q with
              | [] => exact Nat.zero_le _
              | e :: rest =>
                dsimp only
                split
                · exact Nat.succ_le_succ (Nat.succ_le_succ (Nat.succ_le_succ (gapLength_le rest)))
                · exact Nat.zero_le _
            · exact Nat.zero_le _
      · exact Nat.zero_le _

theorem bodyExtent_length_le (delimiter s : Bytes) :
    (bodyExtent delimiter s).length ≤ s.length := by
  fun_induction bodyExtent delimiter s with
  | case1 => simp
  | case2 => simp
  | case3 _ _ ih => simp only [StringExtent.grow, List.length_cons]; omega
  | case4 => simp
  | case5 c r _ _ h => exact (List.isPrefixOf_iff_prefix.1 h).length_le
  | case6 _ _ _ _ _ ih => simp only [StringExtent.grow, List.length_cons]; omega

theorem openingDelimiter_length_le (s : Bytes) : (openingDelimiter s).length ≤ s.length := by
  unfold openingDelimiter
  split
  · simp
  · split
    next h => exact (List.isPrefixOf_iff_prefix.1 h).length_le
    · simp

theorem openingDelimiter_length_pos {s : Bytes} (h : s ≠ []) :
    0 < (openingDelimiter s).length := by
  unfold openingDelimiter
  split
  · contradiction
  · split <;> simp

theorem quotedExtent_length_le (s : Bytes) : (quotedExtent s).length ≤ s.length := by
  have hbody := bodyExtent_length_le (openingDelimiter s)
    (s.drop (openingDelimiter s).length)
  have hopen := openingDelimiter_length_le s
  simp only [quotedExtent, StringExtent.grow, List.length_drop] at *
  omega

theorem quotedExtent_length_pos {s : Bytes} (h : s ≠ []) : 0 < (quotedExtent s).length := by
  have := openingDelimiter_length_pos h
  simp only [quotedExtent, StringExtent.grow]
  omega

theorem numberTail_le (hexadecimal : Bool) (last : UInt8) (s : Bytes) :
    numberTail hexadecimal last s ≤ s.length := by
  fun_induction numberTail hexadecimal last s <;> simp_all

theorem operators_ne_nil {spelling : Bytes} {kind : TokenKind}
    (h : (spelling, kind) ∈ operators) : spelling ≠ [] := by
  have hall : ∀ entry ∈ operators, entry.1 ≠ [] := by decide
  exact hall _ h

namespace Lexeme

theorem ofQuoted_length_le {n : Nat} {s : Bytes} (h : n ≤ s.length) :
    (ofQuoted n s).length ≤ s.length := by
  have hq := quotedExtent_length_le (s.drop n)
  simp only [ofQuoted, StringExtent.grow, List.length_drop] at *
  omega

theorem takeWhile_isNameByte_length_le (s : Bytes) :
    (s.takeWhile isNameByte).length ≤ s.length :=
  (List.takeWhile_prefix isNameByte).length_le

theorem ofWord_length_le (s : Bytes) : (ofWord s).length ≤ s.length := by
  dsimp only [ofWord]
  split
  · exact ofQuoted_length_le (takeWhile_isNameByte_length_le s)
  · exact takeWhile_isNameByte_length_le s

/-- A lexeme is part of the text. -/
theorem length_le (c : UInt8) (r : Bytes) : (first c r).length ≤ (c :: r).length := by
  unfold first
  split
  · exact ofQuoted_length_le (Nat.zero_le _)
  · split
    · exact ofWord_length_le _
    · split
      · have := numberTail_le (c == byte '0' && (r.head?.map lowerByte == some (byte 'x'))) c r
        simp only [numberLength, List.length_cons]
        omega
      · split
        next spelling kind h =>
          have := List.find?_some h
          exact (List.isPrefixOf_iff_prefix.1 this).length_le
        · simp

/-- A lexeme has at least one byte. -/
theorem length_pos (c : UInt8) (r : Bytes) : 0 < (first c r).length := by
  unfold first
  split
  · have := quotedExtent_length_pos (s := c :: r) (by simp)
    simpa [ofQuoted, StringExtent.grow] using this
  · split
    next hstart =>
      have hname : isNameByte c = true := by simp [isNameByte, hstart]
      have hlen : 0 < ((c :: r).takeWhile isNameByte).length := by simp [hname]
      dsimp only [ofWord]
      split
      · simp only [ofQuoted, StringExtent.grow]
        omega
      · exact hlen
    · split
      · simp [numberLength]
      · split
        next spelling kind h =>
          have := operators_ne_nil (List.mem_of_find?_eq_some h)
          exact List.length_pos_iff.2 this
        · simp

end Lexeme

end DocLint
