import DocLint.Proofs.Concatenation.LineEnds
import DocLint.Proofs.Source.Brackets
import DocLint.Source.Scanner

/-!
# Statements that stay on their lines

The scanner takes the lines of decorators and the parameters of a function as far as they go, even
over the end of a line or of a block.  Where they stay inside, what a statement takes in ends before
the file does, and no more blocks are open for the scanner than for the lexer.

* `isContained`: decorators and parameters stay inside.
* `Arranged.exists_line`: the tokens of a line and the mark behind them.
* `Begins`, `Within`: what is known of the tokens ahead at the beginning of a statement, and in the
  middle of a line.
* `Begins.within`, `Begins.decorated`, `Within.behind_newline`: from the one to the other.
-/

namespace DocLint

open TokenKind

namespace TokenKind

/-- A statement may begin behind the kind. -/
def endsStatement (kind : TokenKind) : Bool :=
  kind == newline || kind == indent || kind == dedent || kind == semicolon

end TokenKind

namespace Scanner

/-- Behind the line that the tokens begin with there is another one, of the same block or deeper. -/
def goesOn (tokens : List Token) : Bool :=
  let next := tokens.drop (TokenCursor.lineLength tokens)
  !next.isEmpty && (next.takeWhile fun t => t.kind != .newline).all fun t => t.kind != .dedent

/-- The parameters of the function whose name the tokens begin with end on the line. -/
def closesList (tokens : List Token) : Bool :=
  match tokens with
  | name :: opening :: list =>
    !(name.kind == .identifier && opening.kind == .leftParen) ||
      (list.take (TokenCursor.listLength 0 list)).all fun t => t.kind != .newline
  | _ => true

/-- No line of decorators is the last one of its block, and no list of parameters goes over the end of
its line, in the tokens that follow a token of the kind `last`. -/
def isContained : TokenKind → List Token → Bool
  | _, [] => true
  | last, t :: rest =>
    (!(last.endsStatement && t.kind == .atSign) || goesOn rest) &&
      (!((last.endsStatement || last == .keyword .kAsync) && t.kind == .keyword .kDef) ||
        closesList rest) &&
      isContained t.kind rest

end Scanner

open Scanner

/-! ### Lines among arranged kinds -/

/-- The kinds of some tokens and of the end mark behind them. -/
def kindsAhead (tokens : List Token) : List TokenKind := tokens.map Token.kind ++ [.eof]

/-- The tokens are one line with its end and what is behind it; no block ends in the line. -/
structure SplitsLine (tokens line : List Token) (mark : Token) (behind : List Token) : Prop where
  tokens_eq : tokens = line ++ mark :: behind
  mark_kind : mark.kind = .newline
  line_kinds : ∀ t ∈ line, t.kind ≠ .newline ∧ t.kind ≠ .dedent

/-- One more token in front, which ends neither the line nor a block. -/
theorem SplitsLine.cons {tokens line behind : List Token} {mark : Token}
    (h : SplitsLine tokens line mark behind) {t : Token}
    (ht : t.kind ≠ .newline ∧ t.kind ≠ .dedent) :
    SplitsLine (t :: tokens) (t :: line) mark behind where
  tokens_eq := by rw [h.tokens_eq, List.cons_append]
  mark_kind := h.mark_kind
  line_kinds := List.forall_mem_cons.2 ⟨ht, h.line_kinds⟩

/-- Where something is ahead, it begins with a line, unless a block ends in it. -/
theorem Arranged.exists_line {blocks : Nat} {lineOpen : Bool} {tokens : List Token}
    (h : Arranged blocks lineOpen (kindsAhead tokens))
    (hahead : tokens ≠ [] ∨ 0 < blocks ∨ lineOpen = true)
    (hblocks : ∀ t ∈ tokens.takeWhile (fun t => t.kind != .newline), t.kind ≠ .dedent) :
    ∃ line mark behind, SplitsLine tokens line mark behind ∧
      ∃ more, blocks ≤ more ∧ Arranged more false (kindsAhead behind) := by
  induction tokens generalizing blocks lineOpen with
  | nil =>
      exfalso
      generalize hkinds : kindsAhead [] = kinds at h
      cases h with
      | done => simp at hahead
      | written h _ =>
          cases hkinds
          cases h
      | newline _ => cases hkinds
      | indent _ => cases hkinds
      | dedent _ => cases hkinds
  | cons t rest ih =>
      -- Unless the line ends here, it goes on with the rest.
      have hnext {more : Nat} {open' : Bool} (hkind : t.kind ≠ .newline)
          (hle : blocks ≤ more) (hrest : Arranged more open' (kindsAhead rest))
          (hmore : 0 < more ∨ open' = true) : ∃ line mark behind,
          SplitsLine (t :: rest) line mark behind ∧
            ∃ more, blocks ≤ more ∧ Arranged more false (kindsAhead behind) := by
        have htake : (t :: rest).takeWhile (fun t => t.kind != .newline) =
            t :: rest.takeWhile fun t => t.kind != .newline :=
          List.takeWhile_cons_of_pos (by simpa using hkind)
        rw [htake] at hblocks
        obtain ⟨line, mark, behind, hline, most, hmost, hbehind⟩ := ih hrest (.inr hmore)
          fun u hu => hblocks u (List.mem_cons_of_mem t hu)
        exact ⟨t :: line, mark, behind, hline.cons ⟨hkind, hblocks t List.mem_cons_self⟩, most,
          Nat.le_trans hle hmost, hbehind⟩
      generalize hkinds : kindsAhead (t :: rest) = kinds at h
      rw [kindsAhead, List.map_cons, List.cons_append] at hkinds
      cases h with
      | done => simp at hkinds
      | written hwritten next =>
          obtain ⟨rfl, rfl⟩ := List.cons.inj hkinds
          refine hnext (fun hkind => ?_) (Nat.le_refl _) next (.inr rfl)
          rw [hkind] at hwritten
          cases hwritten
      | newline next =>
          obtain ⟨hkind, rfl⟩ := List.cons.inj hkinds
          exact ⟨[], t, rest, ⟨rfl, hkind, by simp⟩, blocks, Nat.le_refl _, next⟩
      | indent next =>
          obtain ⟨hkind, rfl⟩ := List.cons.inj hkinds
          exact hnext (by rw [hkind]; decide) (Nat.le_succ _) next (.inl (Nat.succ_pos _))
      | dedent next =>
          obtain ⟨hkind, rfl⟩ := List.cons.inj hkinds
          refine absurd hkind (hblocks t ?_)
          rw [List.takeWhile_cons_of_pos (by rw [hkind]; decide)]
          exact List.mem_cons_self

/-- Where a line is open, no block ends before the line does. -/
theorem Arranged.no_dedent {blocks : Nat} {tokens : List Token}
    (h : Arranged blocks true (kindsAhead tokens)) :
    ∀ t ∈ tokens.takeWhile (fun t => t.kind != .newline), t.kind ≠ .dedent := by
  induction tokens with
  | nil => simp
  | cons t rest ih =>
      generalize hkinds : kindsAhead (t :: rest) = kinds at h
      rw [kindsAhead, List.map_cons, List.cons_append] at hkinds
      cases h with
      | written hwritten next =>
          obtain ⟨rfl, rfl⟩ := List.cons.inj hkinds
          rw [List.takeWhile_cons]
          split
          · intro u hu
            rcases List.mem_cons.1 hu with rfl | hu
            · exact (Arranged.ne_indent_dedent hwritten).2
            · exact ih next u hu
          · simp
      | newline next =>
          obtain ⟨hkind, rfl⟩ := List.cons.inj hkinds
          rw [List.takeWhile_cons_of_neg (by simp [hkind])]
          simp

/-! ### Contained statements -/

/-- What ends a statement does not matter. -/
theorem isContained_eq {last : TokenKind} (h : last.endsStatement = true) (tokens : List Token) :
    isContained last tokens = isContained .newline tokens := by
  cases tokens with
  | nil => rfl
  | cons t rest =>
      have hnewline : TokenKind.newline.endsStatement = true := rfl
      rw [isContained, isContained, h, hnewline]
      simp only [Bool.true_or]

theorem isContained_tail {last : TokenKind} {t : Token} {rest : List Token}
    (h : isContained last (t :: rest) = true) : isContained t.kind rest = true := by
  rw [isContained, Bool.and_eq_true] at h
  exact h.2

theorem isContained_behind {last : TokenKind} {front : List Token} {t : Token} {rest : List Token}
    (h : isContained last (front ++ t :: rest) = true) : isContained t.kind rest = true := by
  induction front generalizing last with
  | nil => exact isContained_tail h
  | cons u front ih => exact ih (isContained_tail h)

/-- What is ahead where a statement may begin, `nest` blocks deep for the scanner. -/
structure Begins (nest : Nat) (tokens : List Token) : Prop where
  arranged : ∃ blocks lineOpen, nest ≤ blocks ∧ Arranged blocks lineOpen (kindsAhead tokens)
  outside : newlinesOutside 0 (tokens.map Token.kind) = true
  contained : isContained .newline tokens = true

/-- What is ahead in the middle of a line: its end, and then more statements. -/
def Within (nest : Nat) (tokens : List Token) : Prop :=
  ∃ line mark behind, SplitsLine tokens line mark behind ∧ Begins nest behind

variable {nest : Nat} {t : Token} {tokens rest : List Token}

namespace Begins

/-- Inside a block something is ahead. -/
theorem ne_nil (h : Begins (nest + 1) tokens) : tokens ≠ [] := by
  rintro rfl
  obtain ⟨blocks, lineOpen, hle, harranged⟩ := h.arranged
  generalize hkinds : kindsAhead [] = kinds at harranged
  cases harranged with
  | done => cases hle
  | written hwritten _ =>
      cases hkinds
      cases hwritten
  | newline _ => cases hkinds
  | indent _ => cases hkinds
  | dedent _ => cases hkinds

/-- Behind a token that ends a statement another one may begin. -/
theorem behind {more : Nat} (h : Begins nest (t :: rest)) (hends : t.kind.endsStatement = true)
    (harranged : ∃ blocks lineOpen, more ≤ blocks ∧ Arranged blocks lineOpen (kindsAhead rest)) :
    Begins more rest where
  arranged := harranged
  outside := by
    have hrest := (newlinesOutside_cons h.outside).2
    have hdepth : Lexer.depthAfter 0 t.kind = 0 := by
      simp only [endsStatement, Bool.or_eq_true, beq_iff_eq] at hends
      rcases hends with ((hkind | hkind) | hkind) | hkind
      all_goals rw [hkind]; rfl
    rwa [hdepth] at hrest
  contained := by
    rw [← isContained_eq hends]
    exact isContained_tail h.contained

theorem behind_newline (h : Begins nest (t :: rest)) (ht : t.kind = .newline) :
    Begins nest rest := by
  obtain ⟨blocks, lineOpen, hle, harranged⟩ := h.arranged
  rw [kindsAhead, List.map_cons, ht] at harranged
  exact h.behind (by rw [ht]; rfl) ⟨blocks, false, hle, harranged.behind_newline⟩

theorem behind_indent (h : Begins nest (t :: rest)) (ht : t.kind = .indent) :
    Begins (nest + 1) rest := by
  obtain ⟨blocks, lineOpen, hle, harranged⟩ := h.arranged
  rw [kindsAhead, List.map_cons, ht, List.cons_append] at harranged
  refine h.behind (by rw [ht]; rfl) ?_
  cases harranged with
  | written hwritten _ => cases hwritten
  | indent next => exact ⟨_, _, Nat.succ_le_succ hle, next⟩

theorem behind_dedent (h : Begins (nest + 1) (t :: rest)) (ht : t.kind = .dedent) :
    Begins nest rest := by
  obtain ⟨blocks, lineOpen, hle, harranged⟩ := h.arranged
  rw [kindsAhead, List.map_cons, ht, List.cons_append] at harranged
  refine h.behind (by rw [ht]; rfl) ?_
  cases harranged with
  | written hwritten _ => cases hwritten
  | dedent next => exact ⟨_, _, Nat.le_of_succ_le_succ hle, next⟩

/-- At top level a dedent is passed over. -/
theorem behind_surplus (h : Begins 0 (t :: rest)) (ht : t.kind = .dedent) : Begins 0 rest := by
  obtain ⟨blocks, lineOpen, -, harranged⟩ := h.arranged
  rw [kindsAhead, List.map_cons, ht, List.cons_append] at harranged
  refine h.behind (by rw [ht]; rfl) ?_
  cases harranged with
  | written hwritten _ => cases hwritten
  | dedent next => exact ⟨_, _, Nat.zero_le _, next⟩

/-- What follows a line. -/
theorem behind_line {line : List Token} {mark : Token} {behind : List Token} (h : Begins nest tokens)
    (hline : SplitsLine tokens line mark behind)
    (harranged : ∃ blocks, nest ≤ blocks ∧ Arranged blocks false (kindsAhead behind)) :
    Begins nest behind := by
  obtain ⟨blocks, hle, harranged⟩ := harranged
  refine ⟨⟨blocks, false, hle, harranged⟩, ?_, ?_⟩
  · have houtside := h.outside
    rw [hline.tokens_eq, List.map_append, List.map_cons, hline.mark_kind] at houtside
    exact newlinesOutside_behind houtside
  · have hcontained := h.contained
    rw [hline.tokens_eq] at hcontained
    have hbehind := isContained_behind hcontained
    rwa [hline.mark_kind] at hbehind

/-- A line is ahead where nothing in it ends a block. -/
theorem within (h : Begins nest tokens) (hne : tokens ≠ [])
    (hblocks : ∀ t ∈ tokens.takeWhile (fun t => t.kind != .newline), t.kind ≠ .dedent) :
    Within nest tokens := by
  obtain ⟨blocks, lineOpen, hle, harranged⟩ := h.arranged
  obtain ⟨line, mark, behind, hline, more, hmore, hbehind⟩ :=
    harranged.exists_line (.inl hne) hblocks
  exact ⟨line, mark, behind, hline, h.behind_line hline ⟨more, Nat.le_trans hle hmore, hbehind⟩⟩

/-- A line is ahead where something written is. -/
theorem within_written (h : Begins nest (t :: rest)) (ht : t.kind.isWritten = true) :
    Within nest (t :: rest) := by
  refine h.within (List.cons_ne_nil t rest) ?_
  obtain ⟨blocks, lineOpen, -, harranged⟩ := h.arranged
  rw [kindsAhead, List.map_cons, List.cons_append] at harranged
  have hkind : t.kind ≠ .newline := fun hkind => by
    rw [hkind] at ht
    cases ht
  rw [List.takeWhile_cons_of_pos (by simpa using hkind)]
  intro u hu
  rcases List.mem_cons.1 hu with rfl | hu
  · exact (Arranged.ne_indent_dedent ht).2
  · exact (harranged.behind_written ht).no_dedent u hu

end Begins

namespace Within

theorem ne_nil (h : Within nest tokens) : tokens ≠ [] := by
  obtain ⟨line, mark, behind, hline, -⟩ := h
  rw [hline.tokens_eq]
  simp

/-- In front of the end of the line the rest of it is ahead. -/
theorem tail (h : Within nest (t :: rest)) (ht : t.kind ≠ .newline) : Within nest rest := by
  obtain ⟨line, mark, behind, hline, hbehind⟩ := h
  obtain ⟨htokens, hmark, hkinds⟩ := hline
  cases line with
  | nil =>
      rw [List.nil_append] at htokens
      rw [(List.cons.inj htokens).1] at ht
      exact absurd hmark ht
  | cons u line =>
      rw [List.cons_append] at htokens
      exact ⟨line, mark, behind, ⟨(List.cons.inj htokens).2, hmark,
        fun v hv => hkinds v (List.mem_cons_of_mem u hv)⟩, hbehind⟩

theorem drop {n : Nat} (h : Within nest tokens)
    (hline : ∀ t ∈ tokens.take n, t.kind ≠ .newline) : Within nest (tokens.drop n) := by
  induction n generalizing tokens with
  | zero => exact h
  | succ n ih =>
      cases tokens with
      | nil => exact absurd rfl h.ne_nil
      | cons t rest =>
          rw [List.take_succ_cons] at hline
          exact ih (h.tail (hline t List.mem_cons_self))
            fun u hu => hline u (List.mem_cons_of_mem t hu)

/-- Behind the end of the line a statement may begin. -/
theorem behind_newline (h : Within nest (t :: rest)) (ht : t.kind = .newline) :
    Begins nest rest := by
  obtain ⟨line, mark, behind, ⟨htokens, hmark, hkinds⟩, hbehind⟩ := h
  cases line with
  | nil =>
      rw [List.nil_append] at htokens
      rw [(List.cons.inj htokens).2]
      exact hbehind
  | cons u line =>
      rw [List.cons_append] at htokens
      rw [(List.cons.inj htokens).1] at ht
      exact absurd ht (hkinds u List.mem_cons_self).1

theorem newline_mem (h : Within nest tokens) : TokenKind.newline ∈ tokens.map Token.kind := by
  obtain ⟨line, mark, behind, hline, -⟩ := h
  rw [hline.tokens_eq]
  exact List.mem_map.2 ⟨mark, by simp, hline.mark_kind⟩

/-- A part of the line does not take in the whole file, and no block ends in it. -/
theorem take_line {n : Nat} (h : Within nest tokens)
    (hkinds : ∀ t ∈ tokens.take n, t.kind ≠ .newline) :
    n < tokens.length ∧ ∀ t ∈ tokens.take n, t.kind ≠ .dedent := by
  obtain ⟨line, mark, behind, hline, -⟩ := h
  have hle : n ≤ line.length := by
    by_contra hlt
    refine hkinds mark ?_ hline.mark_kind
    rw [hline.tokens_eq, List.take_append, List.take_cons (by omega)]
    simp
  rw [hline.tokens_eq, List.take_append_of_le_length hle]
  refine ⟨?_, fun t ht => (hline.line_kinds t (List.mem_of_mem_take ht)).2⟩
  rw [List.length_append, List.length_cons]
  omega

end Within

/-! ### Decorators, docstrings and lists -/

theorem SplitsLine.lineLength_eq {line : List Token} {mark : Token} {behind : List Token}
    (h : SplitsLine tokens line mark behind) :
    TokenCursor.lineLength tokens = line.length + 1 := by
  obtain ⟨rfl, hmark, hkinds⟩ := h
  induction line with
  | nil => rw [List.nil_append, TokenCursor.lineLength, if_pos hmark]; rfl
  | cons t line ih =>
      rw [List.cons_append, TokenCursor.lineLength, if_neg (hkinds t List.mem_cons_self).1,
        ih fun u hu => hkinds u (List.mem_cons_of_mem t hu), List.length_cons]

namespace Begins

/-- Behind a line of decorators another line is ahead. -/
theorem decorated (h : Begins nest (t :: rest)) (ht : t.kind = .atSign) :
    Begins nest (rest.drop (TokenCursor.lineLength rest)) ∧
      Within nest (rest.drop (TokenCursor.lineLength rest)) := by
  have hgoesOn : goesOn rest = true := by
    have hcontained := h.contained
    rw [isContained, Bool.and_eq_true, Bool.and_eq_true, ht] at hcontained
    exact hcontained.1.1
  have hwithin := (h.within_written (by rw [ht]; rfl)).tail (by rw [ht]; decide)
  obtain ⟨line, mark, behind, hline, hbehind⟩ := hwithin
  have hdrop : rest.drop (TokenCursor.lineLength rest) = behind := by
    rw [hline.lineLength_eq, hline.tokens_eq, List.drop_length_add_append]
    rfl
  rw [goesOn, hdrop, Bool.and_eq_true, List.all_eq_true] at hgoesOn
  rw [hdrop]
  refine ⟨hbehind, hbehind.within (by simpa using hgoesOn.1) fun u hu => ?_⟩
  simpa using hgoesOn.2 u hu

/-- Behind a string and a semicolon another statement begins on the line. -/
theorem behind_semicolon {u : Token} (h : Begins nest (t :: u :: rest)) (ht : t.kind = .string)
    (hu : u.kind = .semicolon) : Begins nest rest := by
  obtain ⟨blocks, lineOpen, hle, harranged⟩ := h.arranged
  have houtside := h.outside
  have hcontained := isContained_tail (isContained_tail h.contained)
  rw [kindsAhead, List.map_cons, List.map_cons, ht, hu] at harranged
  rw [List.map_cons, List.map_cons, ht, hu] at houtside
  rw [hu, isContained_eq rfl] at hcontained
  refine ⟨⟨blocks, true, hle, ?_⟩, (newlinesOutside_cons (newlinesOutside_cons houtside).2).2,
    hcontained⟩
  exact (harranged.behind_written rfl).behind_written rfl

/-- The word in front of `def` makes no difference. -/
theorem behind_async {u : Token} (h : Begins nest (t :: u :: rest)) (ht : t.kind = .keyword .kAsync)
    (hu : u.kind = .keyword .kDef) : Begins nest (u :: rest) := by
  obtain ⟨blocks, lineOpen, hle, harranged⟩ := h.arranged
  have houtside := h.outside
  have hcontained := isContained_tail h.contained
  rw [kindsAhead, List.map_cons, ht] at harranged
  rw [List.map_cons, ht] at houtside
  rw [ht, isContained, hu] at hcontained
  refine ⟨⟨blocks, true, hle, harranged.behind_written rfl⟩, (newlinesOutside_cons houtside).2, ?_⟩
  rw [isContained, hu]
  exact hcontained

/-- What is ahead at the beginning of a statement is written or a mark of the layout. -/
theorem isWritten (h : Begins nest (t :: rest)) (hnewline : t.kind ≠ .newline)
    (hindent : t.kind ≠ .indent) (hdedent : t.kind ≠ .dedent) : t.kind.isWritten = true := by
  obtain ⟨blocks, lineOpen, -, harranged⟩ := h.arranged
  generalize hkinds : kindsAhead (t :: rest) = kinds at harranged
  cases harranged with
  | done => simp [kindsAhead] at hkinds
  | written hwritten _ => rwa [← (List.cons.inj hkinds).1] at hwritten
  | newline _ => exact absurd (List.cons.inj hkinds).1 hnewline
  | indent _ => exact absurd (List.cons.inj hkinds).1 hindent
  | dedent _ => exact absurd (List.cons.inj hkinds).1 hdedent

/-- The parameters of a function end on the line. -/
theorem closesList (h : Begins nest (t :: rest)) (ht : t.kind = .keyword .kDef) :
    Scanner.closesList rest = true := by
  have hcontained := h.contained
  rw [isContained, Bool.and_eq_true, Bool.and_eq_true, ht] at hcontained
  exact hcontained.1.2

end Begins

/-- A group of brackets does not go over the end of its line. -/
theorem groupLength_line {depth : Nat} (hpos : 0 < depth)
    (h : newlinesOutside depth (tokens.map Token.kind) = true) :
    ∀ t ∈ tokens.take (TokenCursor.groupLength depth tokens), t.kind ≠ .newline := by
  induction tokens generalizing depth with
  | nil => simp
  | cons t rest ih =>
      rw [List.map_cons] at h
      obtain ⟨hline, hrest⟩ := newlinesOutside_cons h
      have hkind : t.kind ≠ .newline := fun hkind => by
        have hzero := hline hkind
        omega
      rw [TokenCursor.groupLength, ← depthAfter_cast fun _ => hpos]
      intro u hu
      split at hu
      next hnext =>
        rw [List.take_succ_cons, List.mem_cons] at hu
        rcases hu with rfl | hu
        · exact hkind
        · exact ih (by omega) hrest u hu
      next hnext =>
        obtain rfl : u = t := by simpa using hu
        exact hkind

/-- Neither does the head of a compound statement. -/
theorem headLength_line (depth : Int) (tokens : List Token) :
    ∀ t ∈ tokens.take (TokenCursor.headLength depth tokens), t.kind ≠ .newline := by
  induction tokens generalizing depth with
  | nil => simp
  | cons t rest ih =>
      rw [TokenCursor.headLength]
      intro u hu
      split at hu
      · simp at hu
      next hnext =>
        rw [List.take_succ_cons, List.mem_cons] at hu
        rcases hu with rfl | hu
        · exact fun hkind => hnext (.inl hkind)
        · exact ih _ u hu

end DocLint
