import DocLint.Proofs.Grammar.Runs

/-!
# Parameter lists as they are written

A parameter list is a sequence of items with commas between them and perhaps one behind the last.
An item is one of the markers `*` and `/`, or a name with its stars, its annotation and its default.
The scanner cuts the tokens of the list apart where the items were put together.

* `NamedParameter.ofItem_tokens`: a written parameter is read back.
* `ParameterList.splitItems_tokens`: the items of a written list are found again.
* `parameterList_tokens`: a written list is read through its closing parenthesis, without a fault.
-/

namespace DocLint

/-- A token of one kind. -/
structure Mark (kind : TokenKind) where
  token : Token
  kind_eq : token.kind = kind

/-- A token of one kind that has bytes. -/
structure Sign (kind : TokenKind) extends Mark kind where
  text_ne_nil : token.text ≠ []

/-- Written tokens with balanced brackets, and only some kinds outside them. -/
structure BalancedRun (allowed : TokenKind → Bool) where
  tokens : List Token
  plain : ∀ t ∈ tokens, t.isPlain = true
  balanced : isBalanced allowed 0 (tokens.map Token.kind) = true

/-- A sign and what it announces. -/
structure Clause (sign : TokenKind) (allowed : TokenKind → Bool) where
  sign : Sign sign
  run : BalancedRun allowed
  run_ne_nil : run.tokens ≠ []

namespace Clause

variable {sign : TokenKind} {allowed : TokenKind → Bool}

def tokens (clause : Clause sign allowed) : List Token := clause.sign.token :: clause.run.tokens

/-- The source text behind the sign. -/
def text? (source : Bytes) (clause : Clause sign allowed) : Option Bytes :=
  sourceText? source clause.run.tokens

end Clause

/-! ### Items -/

/-- The kinds that do not end a default: a comma would begin the next item. -/
def isInDefault (kind : TokenKind) : Bool := kind != .comma

/-- The kinds that do not end an annotation. -/
def isInType (kind : TokenKind) : Bool := kind != .comma && kind != .assign

/-- The stars in front of a name. -/
inductive Stars
  | none
  | one (sign : Sign .star)
  | two (sign : Sign .doubleStar)

namespace Stars

def tokens : Stars → List Token
  | none => []
  | one sign => [sign.token]
  | two sign => [sign.token]

def kind : Stars → ParameterKind
  | none => .positional
  | one _ => .varArgs
  | two _ => .varKeywords

end Stars

/-- A parameter as it is written. -/
structure NamedParameter where
  stars : Stars
  name : Sign .identifier
  typeClause : Option (Clause .colon isInType)
  defaultClause : Option (Clause .assign isInDefault)

/-- What stands between the commas of a parameter list. -/
inductive ParameterItem
  /-- The parameters behind a bare star are passed by name. -/
  | star (sign : Sign .star)
  /-- The parameters before a slash are passed by position. -/
  | slash (sign : Sign .slash)
  | named (parameter : NamedParameter)

namespace NamedParameter

def annotationTokens (p : NamedParameter) : List Token := p.typeClause.elim [] Clause.tokens

def defaultTokens (p : NamedParameter) : List Token := p.defaultClause.elim [] Clause.tokens

def tokens (p : NamedParameter) : List Token :=
  p.stars.tokens ++ p.name.token :: (p.annotationTokens ++ p.defaultTokens)

/-- The parameter that is declared. -/
def parameter (source : Bytes) (p : NamedParameter) : Parameter where
  name := p.name.token.text
  span := Parameter.itemSpan p.tokens
  kind := p.stars.kind
  declaredType := p.typeClause.bind (Clause.text? source)
  defaultValue := p.defaultClause.bind (Clause.text? source)

end NamedParameter

namespace ParameterItem

def tokens : ParameterItem → List Token
  | star sign => [sign.token]
  | slash sign => [sign.token]
  | named p => p.tokens

/-- The parameter that is declared; the markers declare nothing. -/
def parameter? (source : Bytes) : ParameterItem → Option Parameter
  | star _ => none
  | slash _ => none
  | named p => some (p.parameter source)

end ParameterItem

/-! ### Brackets in items -/

theorem Sign.isBalanced {kind : TokenKind} (sign : Sign kind) (allowed : TokenKind → Bool)
    (hnesting : kind.nesting = 0) (h : allowed kind = true) :
    DocLint.isBalanced allowed 0 ([sign.token].map Token.kind) = true := by
  rw [List.map_singleton, sign.kind_eq]
  exact isBalanced_singleton hnesting h

theorem Clause.isBalanced {sign : TokenKind} {allowed other : TokenKind → Bool}
    (clause : Clause sign allowed) (hnesting : sign.nesting = 0) (h : other sign = true)
    (himp : ∀ k, allowed k = true → other k = true) :
    DocLint.isBalanced other 0 (clause.tokens.map Token.kind) = true := by
  have hrun := isBalanced_mono himp clause.run.balanced
  have hboth := isBalanced_append (clause.sign.isBalanced other hnesting h) hrun
  rwa [← List.map_append] at hboth

namespace NamedParameter

variable (p : NamedParameter)

theorem isBalanced_annotationTokens :
    isBalanced isInDefault 0 (p.annotationTokens.map Token.kind) = true := by
  unfold annotationTokens
  cases p.typeClause with
  | none => rfl
  | some clause =>
      refine clause.isBalanced rfl rfl fun k hk => ?_
      rw [isInType, Bool.and_eq_true] at hk
      exact hk.1

theorem isBalanced_defaultTokens :
    isBalanced isInDefault 0 (p.defaultTokens.map Token.kind) = true := by
  unfold defaultTokens
  cases p.defaultClause with
  | none => rfl
  | some clause => exact clause.isBalanced rfl rfl fun k hk => hk

theorem isBalanced_stars : isBalanced isInDefault 0 (p.stars.tokens.map Token.kind) = true := by
  cases p.stars with
  | none => rfl
  | one sign => exact sign.isBalanced _ rfl rfl
  | two sign => exact sign.isBalanced _ rfl rfl

theorem isBalanced_tokens : isBalanced isInDefault 0 (p.tokens.map Token.kind) = true := by
  have hclauses := isBalanced_append p.isBalanced_annotationTokens p.isBalanced_defaultTokens
  have hname := isBalanced_append (p.name.isBalanced isInDefault rfl rfl) hclauses
  have hitem := isBalanced_append p.isBalanced_stars hname
  simpa [tokens] using hitem

end NamedParameter

namespace ParameterItem

/-- An item has no comma outside brackets. -/
theorem isBalanced_tokens (item : ParameterItem) :
    isBalanced isInDefault 0 (item.tokens.map Token.kind) = true := by
  cases item with
  | star sign => exact sign.isBalanced _ rfl rfl
  | slash sign => exact sign.isBalanced _ rfl rfl
  | named p => exact p.isBalanced_tokens

theorem tokens_ne_nil (item : ParameterItem) : item.tokens ≠ [] := by
  cases item with
  | star sign => exact List.cons_ne_nil _ _
  | slash sign => exact List.cons_ne_nil _ _
  | named p => exact List.append_ne_nil_of_right_ne_nil _ (List.cons_ne_nil _ _)

end ParameterItem

/-! ### Reading an item -/

namespace NamedParameter

variable (p : NamedParameter)

theorem kindOf_tokens :
    Parameter.kindOf p.tokens =
      (p.stars.kind, p.name.token :: (p.annotationTokens ++ p.defaultTokens)) := by
  rw [tokens]
  cases p.stars with
  | none => simp [Stars.tokens, Parameter.kindOf, p.name.kind_eq, Stars.kind]
  | one sign => simp [Stars.tokens, Parameter.kindOf, sign.kind_eq, Stars.kind]
  | two sign => simp [Stars.tokens, Parameter.kindOf, sign.kind_eq, Stars.kind]

/-- An annotation ends where the default begins. -/
theorem annotationLength_defaultTokens : annotationLength 0 p.defaultTokens = 0 := by
  unfold defaultTokens
  cases p.defaultClause with
  | none => rfl
  | some clause =>
      rw [Option.elim, Clause.tokens, annotationLength, if_pos ⟨rfl, clause.sign.kind_eq⟩]

/-- The tokens of the annotation. -/
def typeRun (p : NamedParameter) : List Token := p.typeClause.elim [] fun c => c.run.tokens

/-- The tokens of the default. -/
def valueRun (p : NamedParameter) : List Token := p.defaultClause.elim [] fun c => c.run.tokens

theorem annotationRun_tokens :
    Parameter.annotationRun (p.annotationTokens ++ p.defaultTokens) =
      (p.typeRun, p.defaultTokens) := by
  unfold annotationTokens typeRun
  cases p.typeClause with
  | none =>
      unfold defaultTokens
      cases p.defaultClause with
      | none => rfl
      | some clause => simp [Clause.tokens, Parameter.annotationRun, clause.sign.kind_eq]
  | some clause =>
      have hlength : annotationLength 0 (clause.run.tokens ++ p.defaultTokens) =
          clause.run.tokens.length := by
        have h := annotationLength_append clause.run.balanced rfl p.defaultTokens
        rwa [p.annotationLength_defaultTokens] at h
      simp [Clause.tokens, Parameter.annotationRun, clause.sign.kind_eq, hlength]

theorem defaultRun_tokens : Parameter.defaultRun p.defaultTokens = p.valueRun := by
  unfold defaultTokens valueRun
  cases p.defaultClause with
  | none => rfl
  | some clause => simp [Clause.tokens, Parameter.defaultRun, clause.sign.kind_eq]

/-- The texts of a written parameter are not severed, and they are those of its clauses. -/
theorem sourceText?_clause {sign : TokenKind} {allowed : TokenKind → Bool} (source : Bytes)
    (clause : Option (Clause sign allowed)) :
    isSevered (clause.elim [] fun c => c.run.tokens) = false ∧
      sourceText? source (clause.elim [] fun c => c.run.tokens) =
        clause.bind (Clause.text? source) := by
  cases clause with
  | none => exact ⟨rfl, rfl⟩
  | some c =>
      exact ⟨isSevered_of_forall fun t ht => Token.text_ne_nil_of_isPlain (c.run.plain t ht), rfl⟩

/-- A written parameter is read back. -/
theorem ofItem_tokens (source : Bytes) :
    Parameter.ofItem source p.tokens = .ok (some (p.parameter source)) := by
  have hslash : p.name.token.kind ≠ .slash := by simp [p.name.kind_eq]
  obtain ⟨htyping, htype⟩ := sourceText?_clause source p.typeClause
  obtain ⟨hdefault, hvalue⟩ := sourceText?_clause source p.defaultClause
  simp only [Parameter.ofItem, p.kindOf_tokens]
  rw [if_neg fun h => hslash h.1, if_pos p.name.kind_eq]
  simp only [p.annotationRun_tokens, p.defaultRun_tokens, typeRun, valueRun, htyping,
    hdefault, htype, hvalue]
  rfl

end NamedParameter

theorem ParameterItem.ofItem_tokens (source : Bytes) (item : ParameterItem) :
    Parameter.ofItem source item.tokens = .ok (item.parameter? source) := by
  cases item with
  | star sign => simp [tokens, Parameter.ofItem, Parameter.kindOf, sign.kind_eq, parameter?]
  | slash sign => simp [tokens, Parameter.ofItem, Parameter.kindOf, sign.kind_eq, parameter?]
  | named p => exact p.ofItem_tokens source

/-! ### Lists -/

/-- The items of a parameter list; a comma may stand behind the last one. -/
inductive ParameterList
  | nil
  | last (item : ParameterItem)
  | cons (item : ParameterItem) (comma : Sign .comma) (rest : ParameterList)

namespace ParameterList

def items : ParameterList → List ParameterItem
  | nil => []
  | last item => [item]
  | cons item _ rest => item :: rest.items

def tokens : ParameterList → List Token
  | nil => []
  | last item => item.tokens
  | cons item comma rest => item.tokens ++ comma.token :: rest.tokens

/-- The parameters that are declared. -/
def parameters (source : Bytes) (list : ParameterList) : List Parameter :=
  list.items.filterMap (ParameterItem.parameter? source)

/-- The commas of the list itself are outside brackets, so that nothing else ends it. -/
theorem isBalanced_tokens (list : ParameterList) :
    isBalanced (fun _ => true) 0 (list.tokens.map Token.kind) = true := by
  have hitem (item : ParameterItem) :
      isBalanced (fun _ => true) 0 (item.tokens.map Token.kind) = true :=
    isBalanced_mono (fun _ _ => rfl) item.isBalanced_tokens
  induction list with
  | nil => rfl
  | last item => exact hitem item
  | cons item comma rest ih =>
      have hcomma := comma.isBalanced (fun _ => true) rfl rfl
      simpa [tokens] using isBalanced_append (hitem item) (isBalanced_append hcomma ih)

/-- The items of a written list are found again. -/
theorem splitItems_tokens (list : ParameterList) :
    splitItems list.tokens = list.items.map ParameterItem.tokens := by
  induction list with
  | nil => rfl
  | last item =>
      have hsplit : splitCommas 0 (item.tokens ++ []) = [item.tokens ++ []] :=
        splitCommas_append item.isBalanced_tokens rfl rfl
      rw [List.append_nil] at hsplit
      simp [splitItems, tokens, items, hsplit, item.tokens_ne_nil]
  | cons item comma rest ih =>
      have hcomma : splitCommas 0 (comma.token :: rest.tokens) = [] :: splitCommas 0 rest.tokens := by
        rw [splitCommas, if_pos ⟨rfl, comma.kind_eq⟩]
      have hsplit : splitCommas 0 (item.tokens ++ comma.token :: rest.tokens) =
          (item.tokens ++ []) :: splitCommas 0 rest.tokens :=
        splitCommas_append item.isBalanced_tokens rfl hcomma
      rw [List.append_nil] at hsplit
      rw [splitItems] at ih ⊢
      simp [tokens, items, hsplit, item.tokens_ne_nil, ih]

theorem ofItems_tokens (source : Bytes) (list : ParameterList) :
    Parameter.ofItems source (list.items.map ParameterItem.tokens) = list.parameters source := by
  rw [Parameter.ofItems, List.filterMap_map, parameters]
  congr 1
  funext item
  simp [ParameterItem.ofItem_tokens]

theorem faultsOf_tokens (source : Bytes) (list : ParameterList) :
    Parameter.faultsOf source (list.items.map ParameterItem.tokens) = [] := by
  rw [Parameter.faultsOf, List.filterMap_map, List.filterMap_eq_nil_iff]
  intro item _
  simp [ParameterItem.ofItem_tokens]

end ParameterList

open TokenCursor in
/-- A written list is read through its closing parenthesis, without a fault. -/
theorem parameterList_tokens (source : Bytes) (list : ParameterList) (close : Sign .rightParen)
    {c : TokenCursor} {rest : List Token} (h : c.after = list.tokens ++ close.token :: rest) :
    Scanner.parameterList source c =
      (list.parameters source, [], c.past (list.tokens ++ [close.token])) := by
  have hlength : listLength 0 c.after = list.tokens.length := by
    have happend := listLength_append list.isBalanced_tokens (close.token :: rest)
    rw [listLength, if_pos ⟨rfl, close.kind_eq⟩] at happend
    rw [h]
    exact happend
  have hitems : splitItems (c.after.take list.tokens.length) =
      list.items.map ParameterItem.tokens := by
    rw [h, List.take_left, list.splitItems_tokens]
  have hbehind : (c.past list.tokens).after = close.token :: rest := after_past h
  have hclose : (c.past list.tokens).isAt .rightParen = true := by
    simp [isAt_eq hbehind, close.kind_eq]
  have hskip : (c.past list.tokens).skipIf .rightParen = c.past (list.tokens ++ [close.token]) := by
    rw [past_append, skipIf, if_pos hclose]
    rfl
  simp only [Scanner.parameterList, hlength, hitems, list.ofItems_tokens, list.faultsOf_tokens]
  rw [show c.skip list.tokens.length = c.past list.tokens from rfl, if_pos hclose, hskip]
  rfl

end DocLint
