import DocLint.Source.Fault

/-!
# Walking over tokens

A token cursor stands between the tokens already read and the tokens ahead.  The end mark is not
among them: past the last token the cursor stays where it is and sees the end of the file.

* `length_skip`, `length_advance_lt`: reading on shortens what is ahead.
* `length_pos_of_isAt`: where a token of some kind is seen, one is ahead.
-/

namespace DocLint

/-- A place among the tokens of a file; the tokens already read are kept nearest first. -/
structure TokenCursor where
  before : List Token := []
  after : List Token
  /-- Where the file ends. -/
  stop : Position := {}
deriving DecidableEq, Repr

namespace TokenCursor

/-- The cursor in front of the tokens of a file, the last of which is the end mark. -/
def ofTokens (tokens : List Token) : TokenCursor where
  after := tokens.dropLast
  stop := match tokens.getLast? with
    | some mark => mark.position
    | none => {}

/-- The number of tokens ahead. -/
def length (c : TokenCursor) : Nat := c.after.length

/-- No token is ahead. -/
def atEnd (c : TokenCursor) : Bool := c.after.isEmpty

/-- The kind of the token `n` places ahead. -/
def kindAt (c : TokenCursor) (n : Nat) : TokenKind :=
  match c.after[n]? with
  | some t => t.kind
  | none => .eof

/-- The kind of the next token. -/
def kind (c : TokenCursor) : TokenKind := c.kindAt 0

/-- The next token is of that kind. -/
def isAt (c : TokenCursor) (kind : TokenKind) : Bool := c.kind == kind

/-- Where the next token begins. -/
def position (c : TokenCursor) : Position :=
  match c.after with
  | t :: _ => t.position
  | [] => c.stop

/-- The cursor `n` tokens further on. -/
def skip (c : TokenCursor) (n : Nat) : TokenCursor :=
  { c with before := (c.after.take n).reverse ++ c.before, after := c.after.drop n }

/-- The cursor behind the next token. -/
def advance (c : TokenCursor) : TokenCursor := c.skip 1

/-- The cursor behind the next token, if that is of the given kind. -/
def skipIf (c : TokenCursor) (kind : TokenKind) : TokenCursor :=
  if c.isAt kind then c.advance else c

/-- Where the last solid token before the cursor ends, or the cursor if there is none. -/
def lastStop (c : TokenCursor) : Position :=
  match c.before.find? Token.isSolid with
  | some t => t.stop
  | none => c.position

/-- The fault of finding the next token where a construct was needed. -/
def expected (c : TokenCursor) (wanted : String) : Fault :=
  ⟨c.position, .expectedConstruct (ascii wanted) c.kind⟩

/-- The fault of finding the next token where another kind was needed. -/
def expectedKind (c : TokenCursor) (wanted : TokenKind) : Fault :=
  ⟨c.position, .expectedKind wanted c.kind⟩

/-! ### Lengths of constructs -/

/-- The number of tokens up to and with the next newline. -/
def lineLength : List Token → Nat
  | [] => 0
  | t :: rest => if t.kind = .newline then 1 else lineLength rest + 1

/-- The number of tokens of the bracket group that begins here: up to the token that brings the
depth back to zero. -/
def groupLength : Int → List Token → Nat
  | _, [] => 0
  | depth, t :: rest =>
    let next := depth + t.kind.nesting
    if 0 < next then groupLength next rest + 1 else 1

/-- The number of tokens before the next colon outside brackets, or before the next newline. -/
def headLength : Int → List Token → Nat
  | _, [] => 0
  | depth, t :: rest =>
    if t.kind = .newline ∨ (depth = 0 ∧ t.kind = .colon) then 0
    else headLength (depth + t.kind.nesting) rest + 1

/-- The number of tokens before the closing parenthesis of a parameter list. -/
def listLength : Int → List Token → Nat
  | _, [] => 0
  | depth, t :: rest =>
    if depth = 0 ∧ t.kind = .rightParen then 0
    else listLength (depth + t.kind.nesting) rest + 1

/-- The cursor behind the next newline. -/
def skipLine (c : TokenCursor) : TokenCursor := c.skip (lineLength c.after)

/-! ### What reading leaves -/

@[simp] theorem length_skip (c : TokenCursor) (n : Nat) : (c.skip n).length = c.length - n := by
  simp [skip, length]

@[simp] theorem after_skip (c : TokenCursor) (n : Nat) : (c.skip n).after = c.after.drop n := rfl

@[simp] theorem length_advance (c : TokenCursor) : c.advance.length = c.length - 1 := by
  simp [advance]

/-- A cursor at some token is not at the end. -/
theorem length_pos_of_isAt {c : TokenCursor} {kind : TokenKind} (h : c.isAt kind = true)
    (hkind : kind ≠ .eof) : 0 < c.length := by
  cases hafter : c.after with
  | nil =>
    simp [isAt, TokenCursor.kind, kindAt, hafter] at h
    exact absurd h.symm hkind
  | cons t rest => simp [length, hafter]

/-- Reading a token that is there leaves fewer. -/
theorem length_advance_lt {c : TokenCursor} {kind : TokenKind} (h : c.isAt kind = true)
    (hkind : kind ≠ .eof) : c.advance.length < c.length := by
  have := length_pos_of_isAt h hkind
  simp only [length_advance]
  omega

theorem length_skipIf_le (c : TokenCursor) (kind : TokenKind) :
    (c.skipIf kind).length ≤ c.length := by
  unfold skipIf
  split <;> simp

end TokenCursor

end DocLint
