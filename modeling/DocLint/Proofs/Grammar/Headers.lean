import DocLint.Proofs.Grammar.Meaning

/-!
# Reading lines and headers

Where the scanner stands in front of a line or a header that has been written as the grammar says,
it reads exactly that, and stops where what comes next begins.

* `docstring?_statement`: a docstring is found where the tree has one.
* `decorators_tokens`: the decorators are passed and their names are kept.
* `functionHeader_signature`, `classHeader_signature`: headers are accepted without a fault.
-/

namespace DocLint

open Scanner TokenCursor

variable {c : TokenCursor} {rest : List Token}

/-! ### Docstrings -/

/-- Only a string literal is a docstring. -/
theorem docstring?_of_ne {t : Token} (h : c.after = t :: rest) (hkind : t.kind ≠ .string) :
    Scanner.docstring? c = none := by
  simp [Scanner.docstring?, h, hkind]

/-- A line is a docstring if it consists of one. -/
theorem docstring?_line {compound : Bool} (line : StatementLine compound)
    (h : c.after = line.tokens ++ rest) :
    Scanner.docstring? c = line.docstring?.map fun literal => (literal, c.past line.tokens) := by
  obtain ⟨t, more, hcontents⟩ := List.exists_cons_of_ne_nil line.contents_ne_nil
  have hafter : c.after = t :: (more ++ line.newline.token :: rest) := by
    rw [h, StatementLine.tokens, hcontents, List.append_assoc]
    rfl
  rw [Scanner.docstring?, hafter, StatementLine.docstring?, hcontents]
  cases more with
  | cons u more =>
      -- The line goes on behind its first token.
      have hmem : u ∈ line.contents := by simp [hcontents]
      have hnext : c.kindAt 1 = u.kind := by simp [kindAt, hafter]
      obtain ⟨hnewline, -, -, heof⟩ := Token.kind_ne_of_isPlain (line.plain u hmem)
      have hsemicolon := line.no_semicolon u hmem
      simp [hnext, hnewline, heof, hsemicolon]
  | nil =>
      have hnext : c.kindAt 1 = .newline := by simp [kindAt, hafter, line.newline.kind_eq]
      have hadvance : c.advance.after = line.newline.token :: rest := after_advance hafter
      have hsemicolon : c.advance.skipIf .semicolon = c.advance :=
        skipIf_of_ne (by simp [isAt_eq hadvance, line.newline.kind_eq])
      have hnewline : c.advance.skipIf .newline = c.past line.tokens := by
        rw [← line.newline.kind_eq, skipIf_eq hadvance, StatementLine.tokens, hcontents]
        exact (past_append c [t] _).symm
      simp only [hnext, hsemicolon, hnewline]
      by_cases hliteral : (t.kind == .string && !isExpressionLiteral t.text) = true
      · rw [if_pos hliteral, if_pos (by simpa using hliteral)]
        rfl
      · rw [if_neg hliteral, if_neg (by simpa using hliteral)]
        rfl

/-- A docstring is found where the tree has one. -/
theorem docstring?_statement (s : Statement) (h : c.after = s.tokens ++ rest) :
    Scanner.docstring? c = s.docstring?.map fun literal => (literal, c.past s.tokens) := by
  cases s with
  | simple line => exact docstring?_line line h
  | compound line body =>
      rw [Statement.tokens, List.append_assoc] at h
      have hnone : line.docstring? = none := by
        unfold StatementLine.docstring?
        split
        next t hcontents =>
          -- The colon that the line ends in would be the literal.
          have hcolon := line.isCompound_eq
          rw [hcontents] at hcolon
          have hkind : t.kind = .colon := by simpa [isCompound] using hcolon
          simp [hkind]
        · rfl
      rw [docstring?_line line h, hnone]
      rfl
  | function head suite =>
      obtain ⟨t, tail, htokens, -, hkind⟩ := head.exists_first
      rw [Statement.tokens, htokens] at h
      exact docstring?_of_ne h hkind
  | classDef head suite =>
      obtain ⟨t, tail, htokens, -, hkind⟩ := head.exists_first
      rw [Statement.tokens, htokens] at h
      exact docstring?_of_ne h hkind

/-! ### Decorators and `async` -/

theorem lineLength_append {tokens : List Token} (h : ∀ t ∈ tokens, t.kind ≠ .newline)
    (newline : Mark .newline) (rest : List Token) :
    lineLength (tokens ++ newline.token :: rest) = tokens.length + 1 := by
  induction tokens with
  | nil => rw [List.nil_append, lineLength, if_pos newline.kind_eq, List.length_nil]
  | cons t tokens ih =>
      rw [List.cons_append, lineLength, if_neg (h t List.mem_cons_self),
        ih fun u hu => h u (List.mem_cons_of_mem t hu), List.length_cons]

/-- The decorators are passed and their names are kept. -/
theorem decorators_tokens (ds : List Decorator)
    (h : c.after = ds.flatMap Decorator.tokens ++ rest)
    (hrest : ∀ t ∈ rest.head?, t.kind ≠ .atSign) :
    Scanner.decorators c =
      (ds.filterMap Decorator.name?, c.past (ds.flatMap Decorator.tokens)) := by
  induction ds generalizing c with
  | nil =>
      have hat : c.isAt .atSign = false := by
        cases rest with
        | nil => exact isAt_nil h (by decide)
        | cons t rest => simpa [isAt_eq h] using hrest t rfl
      rw [Scanner.decorators, if_neg (by simp [hat])]
      rfl
  | cons d ds ih =>
      have hafter : c.after = d.sign.token ::
          (d.contents ++ d.newline.token :: (ds.flatMap Decorator.tokens ++ rest)) := by
        simp [h, Decorator.tokens]
      have hat : c.isAt .atSign = true := by simp [isAt_eq hafter, d.sign.kind_eq]
      have hadvance := after_advance hafter
      have hskip : c.advance.skipLine = c.past d.tokens := by
        have hlines : ∀ t ∈ d.contents, t.kind ≠ .newline := fun t ht =>
          (Token.kind_ne_of_isPlain (d.plain t ht)).1
        have hlength : lineLength c.advance.after =
            (d.contents ++ [d.newline.token]).length := by
          rw [hadvance, lineLength_append hlines, List.length_append]
          rfl
        rw [skipLine, hlength, Decorator.tokens, past_cons]
        rfl
      have hnext : (c.past d.tokens).after = ds.flatMap Decorator.tokens ++ rest := by
        apply after_past
        simp [h]
      rw [Scanner.decorators, if_pos hat]
      simp only [hskip, ih hnext, hadvance]
      rw [List.flatMap_cons, past_append]
      -- The name is the first token on the line, unless there is none or it is something else.
      cases hcontents : d.contents with
      | nil => simp [Decorator.name?, hcontents, d.newline.kind_eq]
      | cons t contents =>
          by_cases hkind : t.kind = .identifier
          · simp [Decorator.name?, hcontents, hkind, Option.filter]
          · simp [Decorator.name?, hcontents, hkind, Option.filter]

theorem skipAsync_of_ne {t : Token} (h : c.after = t :: rest) (hkind : t.kind ≠ .keyword .kAsync) :
    skipAsync c = c := by
  simp [skipAsync, isAt_eq h, hkind]

/-- The word `async` in front of a function is passed. -/
theorem skipAsync_function (head : FunctionHead)
    (h : c.after = head.asyncTokens ++ (head.signature ++ rest)) :
    skipAsync c = c.past head.asyncTokens := by
  rw [FunctionHead.asyncTokens] at h ⊢
  cases hasync : head.async with
  | none =>
      rw [hasync] at h
      exact skipAsync_of_ne h (by simp [head.word.kind_eq])
  | some sign =>
      rw [hasync] at h
      have hafter : c.after = sign.token :: head.word.token :: _ := h
      have hnext : c.kindAt 1 = .keyword .kDef := by simp [kindAt, hafter, head.word.kind_eq]
      rw [skipAsync, if_pos (by simp [isAt_eq hafter, sign.kind_eq, hnext])]
      rfl

/-! ### Headers -/

/-- The colon ends a header. -/
theorem endHeader_colon {α : Type} (make : UInt32 → α) (colon : Sign .colon)
    (h : c.after = colon.token :: rest) :
    endHeader [] make c =
      ⟨some (make colon.token.position.line), [], c.past [colon.token]⟩ := by
  rw [endHeader, if_pos (by simp [isAt_eq h, colon.kind_eq]), position_eq h]
  rfl

theorem BalancedRun.no_newline {allowed : TokenKind → Bool} (run : BalancedRun allowed) :
    ∀ t ∈ run.tokens, t.kind ≠ .newline := fun t ht =>
  (Token.kind_ne_of_isPlain (run.plain t ht)).1

/-- The annotation of a result ends at the colon of the header. -/
theorem skipResult_tokens (head : FunctionHead)
    (h : c.after = head.resultTokens ++ head.colon.token :: rest) :
    skipResult c = c.past head.resultTokens := by
  rw [FunctionHead.resultTokens] at h ⊢
  cases hresult : head.result with
  | none =>
      rw [hresult] at h
      rw [skipResult, if_neg (by simp [isAt_eq h, head.colon.kind_eq])]
      rfl
  | some result =>
      rw [hresult] at h
      have hafter : c.after =
          result.arrow.token :: (result.run.tokens ++ head.colon.token :: rest) := h
      have hlength : headLength 0 c.advance.after = result.run.tokens.length := by
        have happend := headLength_append result.run.balanced rfl result.run.no_newline
          (head.colon.token :: rest)
        rw [headLength, if_pos (.inr ⟨rfl, head.colon.kind_eq⟩)] at happend
        rw [after_advance hafter]
        exact happend
      rw [skipResult, if_pos (by simp [isAt_eq hafter, result.arrow.kind_eq])]
      simp only [hlength]
      exact (past_cons c _ _).symm

/-- The bases of a class end at the parenthesis that closes the first. -/
theorem classBases_tokens (head : ClassHead)
    (h : c.after = head.basesTokens ++ head.colon.token :: rest) :
    classBases c = c.past head.basesTokens := by
  rw [ClassHead.basesTokens] at h ⊢
  cases hbases : head.bases with
  | none =>
      rw [hbases] at h
      rw [classBases, if_neg (by simp [isAt_eq h, head.colon.kind_eq])]
      rfl
  | some bases =>
      rw [hbases] at h
      have hafter : c.after = bases.opening.token :: (bases.run.tokens ++
          (bases.closing.token :: head.colon.token :: rest)) := by
        rw [h, Option.elim_some, Bases.tokens, List.cons_append, List.append_assoc]
        rfl
      have hclosing : groupLength 1 (bases.closing.token :: head.colon.token :: rest) = 1 := by
        rw [groupLength, bases.closing.kind_eq]
        rfl
      have hlength : groupLength 0 c.after = bases.tokens.length := by
        have happend : groupLength 1 _ = _ := groupLength_append bases.run.balanced
          (bases.closing.token :: head.colon.token :: rest)
        rw [hclosing] at happend
        have hopening : (0 : Int) + bases.opening.token.kind.nesting = 1 := by
          rw [bases.opening.kind_eq]
          rfl
        rw [hafter, groupLength, hopening, if_pos (by decide), happend, Bases.tokens]
        simp
      rw [classBases, if_pos (by simp [isAt_eq hafter, bases.opening.kind_eq]), hlength]
      rfl

/-- The header of a function is accepted. -/
theorem functionHeader_signature (source : Bytes) (head : FunctionHead)
    (h : c.after = head.signature ++ rest) :
    functionHeader source c =
      ⟨some ⟨head.name.declaredName, head.parameters.parameters source,
        head.colon.token.position.line⟩, [], c.past head.signature⟩ := by
  have hafter : c.after = head.word.token :: head.name.token :: head.opening.token ::
      (head.parameters.tokens ++ head.closing.token :: (head.resultTokens ++
        head.colon.token :: rest)) := by
    simp [h, FunctionHead.signature]
  have hname := after_advance hafter
  have hopening := after_advance hname
  have hparameters := after_advance hopening
  have hlist := parameterList_tokens source head.parameters head.closing hparameters
  set behind := c.advance.advance.advance.past (head.parameters.tokens ++ [head.closing.token])
    with hbehind
  have hresult : behind.after = head.resultTokens ++ head.colon.token :: rest := by
    apply after_past
    simp [hparameters]
  have hcolon := after_past hresult
  have hpast : c.past head.signature = (behind.past head.resultTokens).past [head.colon.token] := by
    rw [hbehind, ← past_append, ← past_append, FunctionHead.signature, past_cons, past_cons,
      past_cons]
    simp
  rw [functionHeader]
  simp only [hname]
  rw [if_pos head.name.kind_eq, if_pos (by simp [isAt_eq hopening, head.opening.kind_eq]), hlist]
  simp only [skipResult_tokens head hresult]
  rw [endHeader_colon _ _ hcolon, hpast]
  rfl

/-- The header of a class is accepted. -/
theorem classHeader_signature (head : ClassHead) (h : c.after = head.signature ++ rest) :
    classHeader c =
      ⟨some ⟨head.name.declaredName, head.colon.token.position.line⟩, [], c.past head.signature⟩ := by
  have hafter : c.after = head.word.token :: head.name.token :: (head.basesTokens ++
      head.colon.token :: rest) := by
    simp [h, ClassHead.signature]
  have hname := after_advance hafter
  have hbases := after_advance hname
  have hcolon := after_past hbases
  have hpast : c.past head.signature =
      (c.advance.advance.past head.basesTokens).past [head.colon.token] := by
    rw [← past_append, ClassHead.signature, past_cons, past_cons]
  rw [classHeader]
  simp only [hname]
  rw [if_pos head.name.kind_eq, classBases_tokens head hbases, endHeader_colon _ _ hcolon, hpast]
  rfl

end DocLint
