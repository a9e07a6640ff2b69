import DocLint.Text.Position

/-!
# Tokens of a source file

The kinds of tokens that the declaration scanner tells apart, the tokens themselves, and the
comments, which are kept beside the tokens.

* `Keyword.ofSpelling?_spelling`: a keyword is found under its spelling.
-/

namespace DocLint

/-- The reserved words. -/
inductive Keyword
  | kFalse | kNone | kTrue | kAnd | kAs | kAssert | kAsync | kAwait | kBreak | kClass | kContinue
  | kDef | kDel | kElif | kElse | kExcept | kFinally | kFor | kFrom | kGlobal | kIf | kImport | kIn
  | kIs | kLambda | kNonlocal | kNot | kOr | kPass | kRaise | kReturn | kTry | kWhile | kWith
  | kYield
deriving DecidableEq, Repr

namespace Keyword

/-- Every keyword. -/
def all : List Keyword :=
  [.kFalse, .kNone, .kTrue, .kAnd, .kAs, .kAssert, .kAsync, .kAwait, .kBreak, .kClass, .kContinue,
    .kDef, .kDel, .kElif, .kElse, .kExcept, .kFinally, .kFor, .kFrom, .kGlobal, .kIf, .kImport,
    .kIn, .kIs, .kLambda, .kNonlocal, .kNot, .kOr, .kPass, .kRaise, .kReturn, .kTry, .kWhile,
    .kWith, .kYield]

/-- How a keyword is written. -/
def spelling : Keyword → Bytes
  | kFalse => ascii "False"
  | kNone => ascii "None"
  | kTrue => ascii "True"
  | kAnd => ascii "and"
  | kAs => ascii "as"
  | kAssert => ascii "assert"
  | kAsync => ascii "async"
  | kAwait => ascii "await"
  | kBreak => ascii "break"
  | kClass => ascii "class"
  | kContinue => ascii "continue"
  | kDef => ascii "def"
  | kDel => ascii "del"
  | kElif => ascii "elif"
  | kElse => ascii "else"
  | kExcept => ascii "except"
  | kFinally => ascii "finally"
  | kFor => ascii "for"
  | kFrom => ascii "from"
  | kGlobal => ascii "global"
  | kIf => ascii "if"
  | kImport => ascii "import"
  | kIn => ascii "in"
  | kIs => ascii "is"
  | kLambda => ascii "lambda"
  | kNonlocal => ascii "nonlocal"
  | kNot => ascii "not"
  | kOr => ascii "or"
  | kPass => ascii "pass"
  | kRaise => ascii "raise"
  | kReturn => ascii "return"
  | kTry => ascii "try"
  | kWhile => ascii "while"
  | kWith => ascii "with"
  | kYield => ascii "yield"

/-- The keyword with a spelling. -/
def ofSpelling? (word : Bytes) : Option Keyword := all.find? fun k => k.spelling == word

/-- A keyword is found under its spelling. -/
theorem ofSpelling?_spelling (k : Keyword) : ofSpelling? k.spelling = some k := by
  cases k <;> rfl

end Keyword

/-- The kinds of tokens.  Operators that no rule asks for share one kind. -/
inductive TokenKind
  | invalid
  | eof
  | newline
  | indent
  | dedent
  | identifier
  | number
  | string
  | leftParen
  | rightParen
  | leftBracket
  | rightBracket
  | leftBrace
  | rightBrace
  | comma
  | colon
  | semicolon
  | dot
  | ellipsis
  | assign
  | arrow
  | star
  | doubleStar
  | slash
  | atSign
  | colonAssign
  | operator
  | keyword (k : Keyword)
deriving DecidableEq, Repr

namespace TokenKind

/-- What messages call a kind: the spelling where there is only one, else a word. -/
def name : TokenKind → Bytes
  | invalid => ascii "Invalid"
  | eof => ascii "EOF"
  | newline => ascii "Newline"
  | indent => ascii "Indent"
  | dedent => ascii "Dedent"
  | identifier => ascii "Identifier"
  | number => ascii "NumberLiteral"
  | string => ascii "StringLiteral"
  | leftParen => ascii "("
  | rightParen => ascii ")"
  | leftBracket => ascii "["
  | rightBracket => ascii "]"
  | leftBrace => ascii "\x7b"
  | rightBrace => ascii "\x7d"
  | comma => ascii ","
  | colon => ascii ":"
  | semicolon => ascii ";"
  | dot => ascii "."
  | ellipsis => ascii "..."
  | assign => ascii "="
  | arrow => ascii "->"
  | star => ascii "*"
  | doubleStar => ascii "**"
  | slash => ascii "/"
  | atSign => ascii "@"
  | colonAssign => ascii ":="
  | operator => ascii "Operator"
  | keyword k => k.spelling

/-- The kind of a word: the keyword with that spelling, else an identifier. -/
def ofWord (word : Bytes) : TokenKind :=
  match Keyword.ofSpelling? word with
  | some k => .keyword k
  | none => .identifier

/-- Some keyword. -/
def isKeyword : TokenKind → Bool
  | keyword _ => true
  | _ => false

/-- The kind opens a bracket. -/
def isOpening : TokenKind → Bool
  | leftParen | leftBracket | leftBrace => true
  | _ => false

/-- The kind closes a bracket. -/
def isClosing : TokenKind → Bool
  | rightParen | rightBracket | rightBrace => true
  | _ => false

/-- By how much the kind changes the bracket depth. -/
def nesting (kind : TokenKind) : Int :=
  if kind.isOpening then 1 else if kind.isClosing then -1 else 0

end TokenKind

/-- A token: its kind, its bytes and where they stand.  The tokens that the layout implies have no
bytes. -/
structure Token where
  kind : TokenKind
  text : Bytes
  position : Position
  offset : Nat
deriving DecidableEq, Repr

namespace Token

/-- The position just after the token. -/
def stop (t : Token) : Position := t.position.after t.text

/-- From the first byte to just after the last. -/
def span (t : Token) : Span := ⟨t.position, t.stop⟩

/-- A token with bytes of its own that is not the end of a line. -/
def isSolid (t : Token) : Bool := !t.text.isEmpty && t.kind != .newline

end Token

/-- A comment, from its `#` to the end of the line.  `ownLine` tells that nothing but spaces, tabs
and form feeds stands before it. -/
structure Comment where
  text : Bytes
  position : Position
  offset : Nat
  ownLine : Bool
deriving DecidableEq, Repr

end DocLint
