/-!
# Text as bytes

Source files and docstrings are lists of bytes: every column, offset and length of the library
counts bytes, and the character classes below know ASCII only.  Bytes from 0x80 upwards belong to
none of the classes.

* `splitWhere_ne_nil`, `join_lines`: splitting yields at least one piece, and joining the lines of a
  text gives the text back.
* `strip_eq_self`: stripping a text without edge whitespace changes nothing.
-/

namespace DocLint

/-- A text, byte by byte. -/
abbrev Bytes := List UInt8

/-- The bytes of a literal. -/
def ascii (s : String) : Bytes := s.toUTF8.data.toList

/-- The byte of an ASCII character. -/
def byte (c : Char) : UInt8 := c.toUInt8

/-- The line feed, which ends a line. -/
def newline : UInt8 := 10

/-- The carriage return, which is part of a line's text. -/
def carriageReturn : UInt8 := 13

/-- The horizontal tab. -/
def tab : UInt8 := 9

/-- The form feed. -/
def formFeed : UInt8 := 12

/-- The space. -/
def space : UInt8 := 32

/-- The backslash. -/
def backslash : UInt8 := 92

/-- The double quote. -/
def doubleQuote : UInt8 := 34

/-- The single quote. -/
def singleQuote : UInt8 := 39

namespace Bytes

/-! ### Classes -/

/-- Space, tab, line feed, vertical tab, form feed and carriage return. -/
def isSpace (c : UInt8) : Bool := c == 32 || (9 ≤ c && c ≤ 13)

/-- The digits `0` to `9`. -/
def isDigit (c : UInt8) : Bool := 48 ≤ c && c ≤ 57

/-- The letters `A` to `Z`. -/
def isUpper (c : UInt8) : Bool := 65 ≤ c && c ≤ 90

/-- The letters `a` to `z`. -/
def isLower (c : UInt8) : Bool := 97 ≤ c && c ≤ 122

/-- The letters of both cases. -/
def isAlpha (c : UInt8) : Bool := isUpper c || isLower c

/-- Letters, digits and the underscore. -/
def isWord (c : UInt8) : Bool := isAlpha c || isDigit c || c == 95

/-- The lower-case letter of an upper-case one; any other byte stays. -/
def lowerByte (c : UInt8) : UInt8 := if isUpper c then c + 32 else c

/-- The upper-case letter of a lower-case one; any other byte stays. -/
def upperByte (c : UInt8) : UInt8 := if isLower c then c - 32 else c

/-- The text with its letters in lower case. -/
def toLower (s : Bytes) : Bytes := s.map lowerByte

/-- An opening bracket of any of the three shapes. -/
def isOpenBracket (c : UInt8) : Bool := c == byte '(' || c == byte '[' || c == byte '\x7b'

/-- A closing bracket of any of the three shapes. -/
def isCloseBracket (c : UInt8) : Bool := c == byte ')' || c == byte ']' || c == byte '\x7d'

/-- Either quote. -/
def isQuote (c : UInt8) : Bool := c == doubleQuote || c == singleQuote

/-! ### Edges -/

/-- The number of leading whitespace bytes. -/
def leading (s : Bytes) : Nat := (s.takeWhile isSpace).length

/-- The text without its leading whitespace. -/
def stripStart (s : Bytes) : Bytes := s.dropWhile isSpace

/-- The text without its trailing whitespace. -/
def stripEnd (s : Bytes) : Bytes := (s.reverse.dropWhile isSpace).reverse

/-- The text without whitespace at either end. -/
def strip (s : Bytes) : Bytes := stripEnd (stripStart s)

/-- Nothing but whitespace. -/
def isBlank (s : Bytes) : Bool := s.all isSpace

/-- The text without one final carriage return. -/
def chomp (s : Bytes) : Bytes := if s.getLast? = some carriageReturn then s.dropLast else s

/-! ### Looking for a text inside another -/

/-- `s` begins with `t`. -/
def startsWith (s t : Bytes) : Bool := t.isPrefixOf s

/-- `s` ends with `t`. -/
def endsWith (s t : Bytes) : Bool := t.isSuffixOf s

/-- The offset of the first occurrence of `t`. -/
def offsetOf? (t : Bytes) : Bytes → Option Nat
  | [] => if t = [] then some 0 else none
  | c :: r => if startsWith (c :: r) t then some 0 else (offsetOf? t r).map (· + 1)

/-- `t` occurs in `s`. -/
def includes (s t : Bytes) : Bool := (offsetOf? t s).isSome

/-! ### Splitting and joining -/

/-- The pieces between the bytes that satisfy `p`, empty pieces included. -/
def splitWhere (p : UInt8 → Bool) : Bytes → List Bytes
  | [] => [[]]
  | c :: r =>
    if p c then [] :: splitWhere p r
    else match splitWhere p r with
      | [] => [[c]]
      | piece :: pieces => (c :: piece) :: pieces

/-- The pieces between the occurrences of a byte. -/
def splitOn (c : UInt8) (s : Bytes) : List Bytes := splitWhere (· == c) s

/-- The lines of a text; the newlines themselves belong to no line. -/
def lines (s : Bytes) : List Bytes := splitOn newline s

/-- The pieces one after the other with `separator` between them. -/
def join (separator : Bytes) (pieces : List Bytes) : Bytes := separator.intercalate pieces

/-! ### Numbers -/

/-- A number in decimal. -/
def decimal (n : Nat) : Bytes := (Nat.toDigits 10 n).map Char.toUInt8

/-- The text with spaces after it, up to a width. -/
def padRight (width : Nat) (s : Bytes) : Bytes := s ++ List.replicate (width - s.length) space

/-! ### Small facts -/

/-- There is a piece even where there is no text. -/
theorem splitWhere_ne_nil (p : UInt8 → Bool) (s : Bytes) : splitWhere p s ≠ [] := by
  cases s with
  | nil => simp [splitWhere]
  | cons c r =>
    unfold splitWhere
    split
    · simp
    · split <;> simp

/-- Joining the pieces of a text with the byte that separates them gives the text back. -/
theorem join_splitOn (b : UInt8) (s : Bytes) : join [b] (splitOn b s) = s := by
  unfold splitOn
  induction s with
  | nil => rfl
  | cons c r ih =>
    have hne := splitWhere_ne_nil (· == b) r
    unfold splitWhere
    cases hsplit : splitWhere (· == b) r with
    | nil => exact absurd hsplit hne
    | cons piece pieces =>
      rw [hsplit] at ih
      by_cases hc : (c == b) = true
      · have hc' : c = b := by simpa using hc
        simp only [hc, if_true]
        subst hc'
        conv => rhs; rw [← ih]
        simp [join]
      · simp only [hc, if_false, Bool.false_eq_true]
        conv => rhs; rw [← ih]
        cases pieces <;> simp [join]

/-- Joining the lines of a text with newlines gives the text back. -/
theorem join_lines (s : Bytes) : join [newline] (lines s) = s := join_splitOn newline s

/-- A text that neither begins nor ends with whitespace is its own strip. -/
theorem strip_eq_self {s : Bytes} (first : ∀ c ∈ s.head?, isSpace c = false)
    (last : ∀ c ∈ s.getLast?, isSpace c = false) : strip s = s := by
  have hstart : stripStart s = s := by
    cases s with
    | nil => rfl
    | cons c r =>
      have hc : isSpace c = false := first c rfl
      simp [stripStart, hc]
  rw [strip, hstart, stripEnd]
  cases hrev : s.reverse with
  | nil => simp_all
  | cons c r =>
    have hc : isSpace c = false := last c (by
      rw [← List.head?_reverse, hrev]; rfl)
    rw [List.dropWhile_cons_of_neg (by simp [hc]), ← hrev, List.reverse_reverse]

/-- A blank text strips to nothing. -/
theorem strip_eq_nil_of_isBlank {s : Bytes} (h : isBlank s = true) : strip s = [] := by
  have hstart : stripStart s = [] := by
    unfold stripStart
    induction s with
    | nil => rfl
    | cons c r ih =>
      simp only [isBlank, List.all_cons, Bool.and_eq_true] at h
      rw [List.dropWhile_cons_of_pos h.1]
      exact ih h.2
  simp [strip, hstart, stripEnd]

end Bytes

end DocLint
