import DocLint.Proofs.Source.BlockStructure
import DocLint.Proofs.Source.Brackets
import DocLint.Source.Scanner

/-!
# Runs of tokens

The scanner walks over runs of tokens and counts brackets on its way, so that a comma, a colon, an
equals sign or a closing parenthesis counts only outside them.  Over a run with balanced brackets
each of these walks goes on to the end of the run and is outside brackets again there.

* `past`: the cursor behind some tokens; walks add up.
* `balanced_induction`: what a walk over a balanced run needs to know at each token.
* `listLength_append`, `headLength_append`, `annotationLength_append`, `splitCommas_append`,
  `groupLength_append`: the walks of the scanner over a balanced run.
-/

namespace DocLint

/-! ### Walking -/

namespace TokenCursor

/-- The cursor behind some tokens. -/
def past (c : TokenCursor) (tokens : List Token) : TokenCursor := c.skip tokens.length

variable {c : TokenCursor} {t : Token} {tokens rest : List Token}

@[simp] theorem skip_zero (c : TokenCursor) : c.skip 0 = c := rfl

theorem skip_skip (c : TokenCursor) (m n : Nat) : (c.skip m).skip n = c.skip (m + n) := by
  simp only [skip, List.take_add, List.reverse_append, List.append_assoc, List.drop_drop]

theorem past_append (c : TokenCursor) (tokens more : List Token) :
    c.past (tokens ++ more) = (c.past tokens).past more := by
  rw [past, past, past, skip_skip, List.length_append]

theorem past_cons (c : TokenCursor) (t : Token) (tokens : List Token) :
    c.past (t :: tokens) = c.advance.past tokens := past_append c [t] tokens

theorem advance_eq_past (c : TokenCursor) (t : Token) : c.advance = c.past [t] := rfl

theorem after_past (h : c.after = tokens ++ rest) : (c.past tokens).after = rest := by
  rw [past, after_skip, h, List.drop_left]

theorem after_advance (h : c.after = t :: rest) : c.advance.after = rest := by
  rw [advance_eq_past c t]
  exact after_past h

theorem isAt_eq (h : c.after = t :: rest) (kind : TokenKind) : c.isAt kind = (t.kind == kind) := by
  simp [isAt, TokenCursor.kind, kindAt, h]

theorem isAt_nil (h : c.after = []) {kind : TokenKind} (hkind : kind ≠ .eof) :
    c.isAt kind = false := by
  simp [isAt, TokenCursor.kind, kindAt, h, Ne.symm hkind]

theorem position_eq (h : c.after = t :: rest) : c.position = t.position := by
  simp [position, h]

theorem skipIf_eq (h : c.after = t :: rest) : c.skipIf t.kind = c.past [t] := by
  rw [skipIf, if_pos (by simp [isAt_eq h])]
  rfl

theorem skipIf_of_isAt {kind : TokenKind} (h : c.isAt kind = true) : c.skipIf kind = c.advance :=
  if_pos h

theorem skipIf_of_ne {kind : TokenKind} (h : c.isAt kind = false) : c.skipIf kind = c := by
  rw [skipIf, if_neg (by simp [h])]

theorem before_past (h : c.after = tokens ++ rest) :
    (c.past tokens).before = tokens.reverse ++ c.before := by
  simp only [past, skip, h, List.take_left]

/-- Behind some tokens, the last solid one among them is the last solid one so far. -/
theorem lastStop_past (h : c.after = tokens ++ rest) (hsolid : ∃ t ∈ tokens, t.isSolid = true) :
    (c.past tokens).lastStop = Scanner.fileStop tokens := by
  have hfind : (tokens.reverse.find? Token.isSolid).isSome = true := by
    simpa using hsolid
  obtain ⟨last, hlast⟩ := Option.isSome_iff_exists.1 hfind
  rw [lastStop, before_past h, List.find?_append, Scanner.fileStop, hlast]
  rfl

end TokenCursor

/-- The token stands for something written and has bytes. -/
def Token.isPlain (t : Token) : Bool := t.kind.isWritten && !t.text.isEmpty

namespace Token

variable {t : Token}

theorem isWritten_of_isPlain (h : t.isPlain = true) : t.kind.isWritten = true := by
  rw [isPlain, Bool.and_eq_true] at h
  exact h.1

theorem kind_ne_of_isPlain (h : t.isPlain = true) :
    t.kind ≠ .newline ∧ t.kind ≠ .indent ∧ t.kind ≠ .dedent ∧ t.kind ≠ .eof := by
  have hwritten := isWritten_of_isPlain h
  refine ⟨?_, ?_, ?_, ?_⟩
  all_goals
    intro hkind
    rw [hkind] at hwritten
    cases hwritten

theorem text_ne_nil_of_isPlain (h : t.isPlain = true) : t.text ≠ [] := by
  rw [isPlain, Bool.and_eq_true, Bool.not_eq_true'] at h
  exact List.isEmpty_eq_false_iff.1 h.2

theorem isSolid_of_isPlain (h : t.isPlain = true) : t.isSolid = true := by
  have hnewline := (kind_ne_of_isPlain h).1
  rw [isPlain, Bool.and_eq_true] at h
  simp [isSolid, h.2, hnewline]

end Token

/-! ### Balanced runs -/

variable {allowed : TokenKind → Bool}

/-- Runs without brackets are balanced if all their kinds are allowed. -/
theorem isBalanced_singleton {kind : TokenKind} (hnesting : kind.nesting = 0)
    (h : allowed kind = true) : isBalanced allowed 0 [kind] = true := by
  have hopening : kind.isOpening = false := by
    cases hkind : kind.isOpening with
    | false => rfl
    | true => simp [TokenKind.nesting, hkind] at hnesting
  have hclosing : kind.isClosing = false := by
    cases hkind : kind.isClosing with
    | false => rfl
    | true => simp [TokenKind.nesting, hopening, hkind] at hnesting
  simp [isBalanced, hclosing, h, Lexer.depthAfter, hopening]

theorem isBalanced_append {depth : Nat} {kinds more : List TokenKind}
    (h : isBalanced allowed depth kinds = true) (hmore : isBalanced allowed 0 more = true) :
    isBalanced allowed depth (kinds ++ more) = true := by
  induction kinds generalizing depth with
  | nil =>
      obtain rfl : depth = 0 := by simpa [isBalanced] using h
      exact hmore
  | cons kind kinds ih =>
      simp only [List.cons_append, isBalanced, Bool.and_eq_true] at h ⊢
      exact ⟨h.1, ih h.2⟩

theorem isBalanced_mono {other : TokenKind → Bool} (himp : ∀ k, allowed k = true → other k = true)
    {depth : Nat} {kinds : List TokenKind} (h : isBalanced allowed depth kinds = true) :
    isBalanced other depth kinds = true := by
  induction kinds generalizing depth with
  | nil => exact h
  | cons kind kinds ih =>
      simp only [isBalanced, Bool.and_eq_true, Bool.or_eq_true] at h ⊢
      exact ⟨⟨h.1.1, h.1.2.imp_right (himp kind)⟩, ih h.2⟩

/-- Along a balanced run the depth is never negative; where it is zero the next kind is allowed and
closes no bracket; and at the end it is zero. -/
theorem balanced_induction {motive : Int → List Token → Prop} (nil : motive 0 [])
    (cons : ∀ (depth : Int) (t : Token) (rest : List Token), 0 ≤ depth →
      0 ≤ depth + t.kind.nesting →
      (depth = 0 → allowed t.kind = true ∧ t.kind.isClosing = false) →
      motive (depth + t.kind.nesting) rest → motive depth (t :: rest))
    {depth : Nat} {tokens : List Token}
    (h : isBalanced allowed depth (tokens.map Token.kind) = true) : motive depth tokens := by
  induction tokens generalizing depth with
  | nil =>
      obtain rfl : depth = 0 := by simpa [isBalanced] using h
      exact nil
  | cons t rest ih =>
      obtain ⟨hclosing, hallowed, hrest⟩ := isBalanced_cons h
      have hcast := depthAfter_cast hclosing
      refine cons depth t rest (by omega) (by omega) (fun hzero => ?_) (hcast ▸ ih hrest)
      have hdepth : depth = 0 := by omega
      refine ⟨hallowed hdepth, ?_⟩
      cases hkind : t.kind.isClosing with
      | false => rfl
      | true =>
          have := hclosing hkind
          omega

namespace TokenCursor

variable {depth : Nat} {tokens : List Token}

/-- The closing parenthesis of a parameter list is not inside a balanced run. -/
theorem listLength_append (h : isBalanced allowed depth (tokens.map Token.kind) = true)
    (rest : List Token) :
    listLength depth (tokens ++ rest) = tokens.length + listLength 0 rest := by
  refine balanced_induction
    (motive := fun depth tokens =>
      listLength depth (tokens ++ rest) = tokens.length + listLength 0 rest) ?_ ?_ h
  · rw [List.nil_append, List.length_nil, Nat.zero_add]
  · intro depth t tokens _ _ houtside ih
    have hstay : ¬ (depth = 0 ∧ t.kind = .rightParen) := by
      rintro ⟨hzero, hkind⟩
      have hclosing := (houtside hzero).2
      rw [hkind] at hclosing
      cases hclosing
    rw [List.cons_append, listLength, if_neg hstay, ih, List.length_cons]
    omega

/-- A header's colon is not inside a balanced run without colons of its own. -/
theorem headLength_append (h : isBalanced allowed depth (tokens.map Token.kind) = true)
    (hcolon : allowed .colon = false) (hlines : ∀ t ∈ tokens, t.kind ≠ .newline) (rest : List Token) :
    headLength depth (tokens ++ rest) = tokens.length + headLength 0 rest := by
  revert hlines
  refine balanced_induction
    (motive := fun depth tokens => (∀ t ∈ tokens, t.kind ≠ .newline) →
      headLength depth (tokens ++ rest) = tokens.length + headLength 0 rest) ?_ ?_ h
  · intro _
    rw [List.nil_append, List.length_nil, Nat.zero_add]
  · intro depth t tokens _ _ houtside ih hlines
    have hstay : ¬ (t.kind = .newline ∨ depth = 0 ∧ t.kind = .colon) := by
      rintro (hkind | ⟨hzero, hkind⟩)
      · exact hlines t List.mem_cons_self hkind
      · have hkinds := (houtside hzero).1
        rw [hkind, hcolon] at hkinds
        cases hkinds
    rw [List.cons_append, headLength, if_neg hstay,
      ih fun u hu => hlines u (List.mem_cons_of_mem t hu), List.length_cons]
    omega

/-- A bracket group does not end inside a balanced run. -/
theorem groupLength_append (h : isBalanced allowed depth (tokens.map Token.kind) = true)
    (rest : List Token) :
    groupLength (depth + 1) (tokens ++ rest) = tokens.length + groupLength 1 rest := by
  refine balanced_induction
    (motive := fun depth tokens =>
      groupLength (depth + 1) (tokens ++ rest) = tokens.length + groupLength 1 rest) ?_ ?_ h
  · rw [List.nil_append, List.length_nil, Nat.zero_add]
    rfl
  · intro depth t tokens _ hnext _ ih
    have hdepth : depth + 1 + t.kind.nesting = depth + t.kind.nesting + 1 := by omega
    rw [List.cons_append, groupLength, hdepth, if_pos (by omega), ih, List.length_cons]
    omega

end TokenCursor

/-- An annotation's end is not inside a balanced run without equals signs of its own. -/
theorem annotationLength_append {depth : Nat} {tokens : List Token}
    (h : isBalanced allowed depth (tokens.map Token.kind) = true) (hassign : allowed .assign = false)
    (rest : List Token) :
    annotationLength depth (tokens ++ rest) = tokens.length + annotationLength 0 rest := by
  refine balanced_induction
    (motive := fun depth tokens =>
      annotationLength depth (tokens ++ rest) = tokens.length + annotationLength 0 rest) ?_ ?_ h
  · rw [List.nil_append, List.length_nil, Nat.zero_add]
  · intro depth t tokens _ _ houtside ih
    have hstay : ¬ (depth = 0 ∧ t.kind = .assign) := by
      rintro ⟨hzero, hkind⟩
      have hkinds := (houtside hzero).1
      rw [hkind, hassign] at hkinds
      cases hkinds
    rw [List.cons_append, annotationLength, if_neg hstay, ih, List.length_cons]
    omega

/-- A balanced run without commas of its own belongs to one item. -/
theorem splitCommas_append {depth : Nat} {tokens : List Token}
    (h : isBalanced allowed depth (tokens.map Token.kind) = true) (hcomma : allowed .comma = false)
    {rest item : List Token} {items : List (List Token)} (hrest : splitCommas 0 rest = item :: items) :
    splitCommas depth (tokens ++ rest) = (tokens ++ item) :: items := by
  refine balanced_induction
    (motive := fun depth tokens =>
      splitCommas depth (tokens ++ rest) = (tokens ++ item) :: items) ?_ ?_ h
  · exact hrest
  · intro depth t tokens _ _ houtside ih
    have hstay : ¬ (depth = 0 ∧ t.kind = .comma) := by
      rintro ⟨hzero, hkind⟩
      have hkinds := (houtside hzero).1
      rw [hkind, hcomma] at hkinds
      cases hkinds
    rw [List.cons_append, splitCommas, if_neg hstay, ih]
    rfl

end DocLint
