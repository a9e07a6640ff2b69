import DocLint.Proofs.Grammar.Headers
import DocLint.Proofs.Grammar.ParameterTexts

/-!
# Lambda expressions as defaults

The commas between the arguments of a lambda expression stand outside brackets, and at such commas
the scanner parts a parameter list.  A default that is a lambda expression with more than one argument
is cut: it ends behind the first argument, and each further one is declared as a parameter, the last
one with the body for an annotation.

* `HeaderList`: a parameter list, in which defaults may be lambda expressions.
* `HeaderParameter.pieces`: what a parameter is cut into.
* `functionDef_declares_iff`: a header declares its pieces; these are the parameters that are written
  if and only if no lambda expression has a second argument.
-/

namespace DocLint

open Scanner TokenCursor

/-! ### Runs -/

namespace BalancedRun

variable {allowed other : TokenKind → Bool}

/-- A sign that is no bracket. -/
def ofSign {kind : TokenKind} (sign : Sign kind) (hwritten : kind.isWritten = true)
    (hnesting : kind.nesting = 0) (hallowed : allowed kind = true) : BalancedRun allowed where
  tokens := [sign.token]
  plain t ht := by
    obtain rfl := List.mem_singleton.1 ht
    simp [Token.isPlain, sign.kind_eq, hwritten, sign.text_ne_nil]
  balanced := sign.isBalanced allowed hnesting hallowed

/-- One run behind the other. -/
def append (run more : BalancedRun allowed) : BalancedRun allowed where
  tokens := run.tokens ++ more.tokens
  plain t ht := (List.mem_append.1 ht).elim (run.plain t) (more.plain t)
  balanced := by
    rw [List.map_append]
    exact isBalanced_append run.balanced more.balanced

/-- A run where more kinds are allowed. -/
def weaken (himp : ∀ k, allowed k = true → other k = true) (run : BalancedRun allowed) :
    BalancedRun other where
  tokens := run.tokens
  plain := run.plain
  balanced := isBalanced_mono himp run.balanced

end BalancedRun

/-- What does not end an annotation does not end a default. -/
theorem isInDefault_of_isInType (k : TokenKind) (h : isInType k = true) : isInDefault k = true := by
  rw [isInType, Bool.and_eq_true] at h
  exact h.1

/-! ### Lambda expressions -/

/-- An argument of a lambda expression, plain or starred. -/
structure LambdaArgument where
  stars : Stars
  name : Sign .identifier

namespace LambdaArgument

def tokens (a : LambdaArgument) : List Token := a.stars.tokens ++ [a.name.token]

def run (a : LambdaArgument) : BalancedRun isInDefault :=
  let name := BalancedRun.ofSign a.name rfl rfl rfl
  match a.stars with
  | .none => name
  | .one sign => (BalancedRun.ofSign sign rfl rfl rfl).append name
  | .two sign => (BalancedRun.ofSign sign rfl rfl rfl).append name

theorem run_tokens (a : LambdaArgument) : a.run.tokens = a.tokens := by
  rw [run, tokens]
  cases a.stars <;> rfl

end LambdaArgument

/-- A lambda expression.  There is no comma outside brackets in its body.  The first equals sign
outside brackets in the body, if any, belongs to an argument of a lambda expression inside of it. -/
structure Lambda where
  word : Sign (.keyword .kLambda)
  arguments : Option (LambdaArgument × List (Sign .comma × LambdaArgument))
  body : Clause .colon isInType
  inner : Option (Clause .assign isInDefault)

namespace Lambda

variable (value : Lambda)

def first? : Option LambdaArgument := value.arguments.map Prod.fst

/-- The arguments behind the first one, with the commas in front of them. -/
def others : List (Sign .comma × LambdaArgument) := value.arguments.elim [] Prod.snd

def argumentCount : Nat := value.arguments.elim 0 fun a => a.2.length + 1

def bodyTokens : List Token := value.body.tokens ++ value.inner.elim [] Clause.tokens

def tokens : List Token :=
  value.word.token :: (value.first?.elim [] LambdaArgument.tokens ++
    (value.others.flatMap (fun a => a.1.token :: a.2.tokens) ++ value.bodyTokens))

theorem length_others : value.others.length = value.argumentCount - 1 := by
  rw [others, argumentCount]
  cases value.arguments <;> rfl

/-- The word and the first argument. -/
def front : BalancedRun isInDefault :=
  let word := BalancedRun.ofSign value.word rfl rfl rfl
  match value.first? with
  | none => word
  | some a => word.append a.run

/-- The colon and the body. -/
def bodyRun : BalancedRun isInDefault :=
  let body := (BalancedRun.ofSign value.body.sign rfl rfl rfl).append
    (value.body.run.weaken isInDefault_of_isInType)
  match value.inner with
  | none => body
  | some clause => body.append ((BalancedRun.ofSign clause.sign rfl rfl rfl).append clause.run)

theorem front_tokens :
    value.front.tokens = value.word.token :: value.first?.elim [] LambdaArgument.tokens := by
  rw [front]
  cases value.first? with
  | none => rfl
  | some a => exact congrArg (value.word.token :: ·) a.run_tokens

theorem front_ne_nil : value.front.tokens ≠ [] := by
  rw [front_tokens]
  exact List.cons_ne_nil _ _

theorem bodyRun_tokens : value.bodyRun.tokens = value.bodyTokens := by
  rw [bodyRun, bodyTokens]
  cases value.inner with
  | none => exact (List.append_nil _).symm
  | some clause => rfl

end Lambda

/-! ### What is cut -/

/-- The tokens of parameters with a comma in front of each. -/
def behindCommas (more : List (Sign .comma × NamedParameter)) : List Token :=
  more.flatMap fun piece => piece.1.token :: piece.2.tokens

namespace Lambda

variable (value : Lambda)

/-- The parameters that arguments are taken for: the body is the annotation of the last one. -/
def parameters : List (Sign .comma × LambdaArgument) → List (Sign .comma × NamedParameter)
  | [] => []
  | [(comma, a)] => [(comma, ⟨a.stars, a.name, some value.body, value.inner⟩)]
  | (comma, a) :: next :: more => (comma, ⟨a.stars, a.name, none, none⟩) :: parameters (next :: more)

theorem length_parameters (arguments : List (Sign .comma × LambdaArgument)) :
    (value.parameters arguments).length = arguments.length := by
  fun_induction parameters value arguments with
  | case1 => rfl
  | case2 comma a => rfl
  | case3 comma a next more ih => exact congrArg (· + 1) ih

theorem behindCommas_parameters {arguments : List (Sign .comma × LambdaArgument)}
    (hne : arguments ≠ []) :
    behindCommas (value.parameters arguments) =
      arguments.flatMap (fun a => a.1.token :: a.2.tokens) ++ value.bodyTokens := by
  fun_induction parameters value arguments with
  | case1 => exact absurd rfl hne
  | case2 comma a =>
      simp [behindCommas, NamedParameter.tokens, NamedParameter.annotationTokens,
        NamedParameter.defaultTokens, LambdaArgument.tokens, bodyTokens]
  | case3 comma a next more ih =>
      have hrest := ih (List.cons_ne_nil _ _)
      rw [behindCommas] at hrest ⊢
      rw [List.flatMap_cons, hrest, List.flatMap_cons]
      simp [NamedParameter.tokens, NamedParameter.annotationTokens, NamedParameter.defaultTokens,
        LambdaArgument.tokens]

/-- The default that is read, and the parameters behind it. -/
def cut (sign : Sign .assign) : Clause .assign isInDefault × List (Sign .comma × NamedParameter) :=
  if value.others = [] then
    (⟨sign, value.front.append value.bodyRun, List.append_ne_nil_of_left_ne_nil value.front_ne_nil _⟩,
      [])
  else (⟨sign, value.front, value.front_ne_nil⟩, value.parameters value.others)

/-- Without a second argument nothing is cut off. -/
theorem cut_whole (sign : Sign .assign) (h : value.others = []) :
    (value.cut sign).1.run.tokens = value.tokens ∧ (value.cut sign).2 = [] := by
  rw [cut, if_pos h]
  refine ⟨?_, rfl⟩
  simp [BalancedRun.append, front_tokens, bodyRun_tokens, tokens, h]

theorem tokens_cut (sign : Sign .assign) :
    (value.cut sign).1.tokens ++ behindCommas (value.cut sign).2 = sign.token :: value.tokens := by
  by_cases h : value.others = []
  · obtain ⟨hwhole, hnone⟩ := value.cut_whole sign h
    have hsign : (value.cut sign).1.sign = sign := by rw [cut, if_pos h]
    rw [Clause.tokens, hsign, hwhole, hnone]
    exact List.append_nil _
  · rw [cut, if_neg h, behindCommas_parameters value h]
    simp [Clause.tokens, front_tokens, tokens]

theorem length_cut (sign : Sign .assign) :
    (value.cut sign).2.length = value.argumentCount - 1 := by
  rw [← length_others, cut]
  split
  next h => exact (congrArg List.length h).symm
  next h => exact value.length_parameters _

end Lambda

/-! ### Parameters -/

/-- The default of a parameter. -/
inductive HeaderDefault
  | plain (clause : Clause .assign isInDefault)
  | lambda (sign : Sign .assign) (value : Lambda)

namespace HeaderDefault

/-- The tokens behind the equals sign. -/
def value : HeaderDefault → List Token
  | plain clause => clause.run.tokens
  | lambda _ value => value.tokens

def tokens : HeaderDefault → List Token
  | plain clause => clause.tokens
  | lambda sign value => sign.token :: value.tokens

/-- The number of arguments of the lambda expression, if the default is one. -/
def argumentCount : HeaderDefault → Nat
  | plain _ => 0
  | lambda _ value => value.argumentCount

/-- The default that is read, and the parameters behind it. -/
def cut : HeaderDefault → Clause .assign isInDefault × List (Sign .comma × NamedParameter)
  | plain clause => (clause, [])
  | lambda sign value => value.cut sign

variable (d : HeaderDefault)

theorem tokens_cut : d.cut.1.tokens ++ behindCommas d.cut.2 = d.tokens := by
  cases d with
  | plain clause => exact List.append_nil _
  | lambda sign value => exact value.tokens_cut sign

theorem length_cut : d.cut.2.length = d.argumentCount - 1 := by
  cases d with
  | plain clause => rfl
  | lambda sign value => exact value.length_cut sign

/-- Without a second argument the default that is read is the whole expression. -/
theorem value_cut (h : d.argumentCount ≤ 1) : d.cut.1.run.tokens = d.value := by
  cases d with
  | plain clause => rfl
  | lambda sign value =>
      refine (value.cut_whole sign (List.eq_nil_of_length_eq_zero ?_)).1
      rw [value.length_others]
      exact Nat.sub_eq_zero_of_le h

end HeaderDefault

/-- A parameter as it is written. -/
structure HeaderParameter where
  stars : Stars
  name : Sign .identifier
  typeClause : Option (Clause .colon isInType)
  default? : Option HeaderDefault

namespace HeaderParameter

def tokens (p : HeaderParameter) : List Token :=
  p.stars.tokens ++ p.name.token ::
    (p.typeClause.elim [] Clause.tokens ++ p.default?.elim [] HeaderDefault.tokens)

/-- The number of arguments of the lambda expression that is the default. -/
def argumentCount (p : HeaderParameter) : Nat := p.default?.elim 0 HeaderDefault.argumentCount

/-- What a written parameter declares: its default is the whole expression. -/
structure Declares (source : Bytes) (p : HeaderParameter) (declared : Parameter) : Prop where
  name : declared.name = p.name.token.text
  kind : declared.kind = p.stars.kind
  declaredType : Clause.Declares source p.typeClause declared.declaredType
  defaultValue : Option.Rel (fun d text => IsTextOf source d.value text) p.default?
    declared.defaultValue
  span : ∃ first last, p.tokens.head? = some first ∧ p.tokens.getLast? = some last ∧
    declared.span = ⟨first.position, last.stop⟩

variable (p : HeaderParameter)

/-- The parameter, with what is read of its default. -/
def firstPiece : NamedParameter :=
  ⟨p.stars, p.name, p.typeClause, p.default?.map fun d => d.cut.1⟩

/-- The parameters that are read behind it, with the commas in front of them. -/
def morePieces : List (Sign .comma × NamedParameter) := p.default?.elim [] fun d => d.cut.2

/-- What a parameter is cut into. -/
def pieces : List NamedParameter := p.firstPiece :: p.morePieces.map Prod.snd

theorem tokens_pieces : p.firstPiece.tokens ++ behindCommas p.morePieces = p.tokens := by
  rw [NamedParameter.tokens, tokens, NamedParameter.annotationTokens, NamedParameter.defaultTokens,
    firstPiece, morePieces]
  cases p.default? with
  | none => simp [behindCommas]
  | some d => simp [← d.tokens_cut]

theorem length_pieces : p.pieces.length = p.argumentCount - 1 + 1 := by
  rw [pieces, List.length_cons, List.length_map, morePieces, argumentCount]
  cases p.default? with
  | none => rfl
  | some d => exact congrArg (· + 1) d.length_cut

/-- Without a second argument the parameter is left whole. -/
theorem pieces_whole (h : p.argumentCount ≤ 1) : p.pieces = [p.firstPiece] := by
  have hnone : p.morePieces.length = 0 := by
    have hlength := p.length_pieces
    rw [pieces, List.length_cons, List.length_map] at hlength
    omega
  rw [pieces, List.eq_nil_of_length_eq_zero hnone, List.map_nil]

theorem tokens_firstPiece (h : p.argumentCount ≤ 1) : p.firstPiece.tokens = p.tokens := by
  have hnone : p.morePieces = [] := by
    simpa [pieces] using p.pieces_whole h
  have htokens := p.tokens_pieces
  rwa [hnone, behindCommas, List.flatMap_nil, List.append_nil] at htokens

/-- A parameter that is left whole declares what is written. -/
theorem declares_of_firstPiece {source : Bytes} {declared : Parameter} (h : p.argumentCount ≤ 1)
    (hdeclares : p.firstPiece.Declares source declared) : p.Declares source declared where
  name := hdeclares.name
  kind := hdeclares.kind
  declaredType := hdeclares.declaredType
  defaultValue := by
    have hvalue := hdeclares.defaultValue
    rw [Clause.Declares, firstPiece] at hvalue
    rw [argumentCount] at h
    generalize declared.defaultValue = text? at hvalue ⊢
    cases hdefault : p.default? with
    | none =>
        rw [hdefault] at hvalue
        cases hvalue
        exact .none
    | some d =>
        rw [hdefault] at hvalue h
        cases hvalue with
        | some htext => exact .some (d.value_cut h ▸ htext)
  span := p.tokens_firstPiece h ▸ hdeclares.span

end HeaderParameter

/-- What stands between the commas that part the parameters. -/
inductive HeaderItem
  | star (sign : Sign .star)
  | slash (sign : Sign .slash)
  | named (parameter : HeaderParameter)

/-- The parameter list of a header; a comma may stand behind the last item. -/
inductive HeaderList
  | nil
  | last (item : HeaderItem)
  | cons (item : HeaderItem) (comma : Sign .comma) (rest : HeaderList)

namespace HeaderItem

def tokens : HeaderItem → List Token
  | star sign => [sign.token]
  | slash sign => [sign.token]
  | named p => p.tokens

/-- The parameter among the items; the markers are none. -/
def named? : HeaderItem → Option HeaderParameter
  | star _ => none
  | slash _ => none
  | named p => some p

end HeaderItem

namespace HeaderList

def items : HeaderList → List HeaderItem
  | nil => []
  | last item => [item]
  | cons item _ rest => item :: rest.items

def tokens : HeaderList → List Token
  | nil => []
  | last item => item.tokens
  | cons item comma rest => item.tokens ++ comma.token :: rest.tokens

/-- The parameters that are written. -/
def named (list : HeaderList) : List HeaderParameter := list.items.filterMap HeaderItem.named?

end HeaderList

/-! ### The list that is read -/

namespace ParameterList

variable (behind : Option (Sign .comma × ParameterList))

/-- A list that begins with an item, with a comma and the rest of it behind. -/
def begin (item : ParameterItem) : Option (Sign .comma × ParameterList) → ParameterList
  | none => .last item
  | some (comma, rest) => .cons item comma rest

/-- A list that begins with parameters. -/
def beginNamed (first : NamedParameter) : List (Sign .comma × NamedParameter) → ParameterList
  | [] => begin (.named first) behind
  | (comma, next) :: more => .cons (.named first) comma (beginNamed next more)

/-- The tokens of the comma and the rest. -/
def restTokens : List Token := behind.elim [] fun rest => rest.1.token :: rest.2.tokens

/-- The parameters of the rest. -/
def restNamed : List NamedParameter := behind.elim [] fun rest => rest.2.named

theorem tokens_begin (item : ParameterItem) :
    (begin item behind).tokens = item.tokens ++ restTokens behind := by
  cases behind with
  | none => exact (List.append_nil _).symm
  | some behind => rfl

theorem named_begin (item : ParameterItem) :
    (begin item behind).named = item.named?.toList ++ restNamed behind := by
  cases behind with
  | none => cases item <;> rfl
  | some behind => cases item <;> rfl

theorem tokens_beginNamed (first : NamedParameter) (more : List (Sign .comma × NamedParameter)) :
    (beginNamed behind first more).tokens =
      first.tokens ++ (behindCommas more ++ restTokens behind) := by
  induction more generalizing first with
  | nil => exact tokens_begin behind _
  | cons piece more ih =>
      rw [beginNamed, tokens, ih]
      simp [behindCommas, ParameterItem.tokens]

theorem named_beginNamed (first : NamedParameter) (more : List (Sign .comma × NamedParameter)) :
    (beginNamed behind first more).named =
      first :: (more.map Prod.snd ++ restNamed behind) := by
  induction more generalizing first with
  | nil => exact named_begin behind _
  | cons piece more ih => exact congrArg (first :: ·) (ih piece.2)

end ParameterList

namespace HeaderItem

/-- The items that an item is read as, in front of the rest of the list. -/
def read (behind : Option (Sign .comma × ParameterList)) : HeaderItem → ParameterList
  | star sign => .begin (.star sign) behind
  | slash sign => .begin (.slash sign) behind
  | named p => .beginNamed behind p.firstPiece p.morePieces

theorem tokens_read (behind : Option (Sign .comma × ParameterList)) (item : HeaderItem) :
    (item.read behind).tokens = item.tokens ++ ParameterList.restTokens behind := by
  cases item with
  | star sign => exact ParameterList.tokens_begin behind _
  | slash sign => exact ParameterList.tokens_begin behind _
  | named p => rw [read, ParameterList.tokens_beginNamed, ← List.append_assoc, p.tokens_pieces, tokens]

theorem named_read (behind : Option (Sign .comma × ParameterList)) (item : HeaderItem) :
    (item.read behind).named =
      item.named?.toList.flatMap HeaderParameter.pieces ++ ParameterList.restNamed behind := by
  cases item with
  | star sign => exact ParameterList.named_begin behind _
  | slash sign => exact ParameterList.named_begin behind _
  | named p =>
      rw [read, ParameterList.named_beginNamed]
      simp [named?, HeaderParameter.pieces]

end HeaderItem

namespace HeaderList

/-- The list that the scanner finds in the tokens. -/
def read : HeaderList → ParameterList
  | nil => .nil
  | last item => item.read none
  | cons item comma rest => item.read (some (comma, rest.read))

theorem tokens_read (list : HeaderList) : list.read.tokens = list.tokens := by
  induction list with
  | nil => rfl
  | last item => exact (item.tokens_read none).trans (List.append_nil _)
  | cons item comma rest ih =>
      rw [read, item.tokens_read, ParameterList.restTokens, Option.elim_some, ih, tokens]

theorem named_read (list : HeaderList) :
    list.read.named = list.named.flatMap HeaderParameter.pieces := by
  induction list with
  | nil => rfl
  | last item =>
      rw [read, item.named_read, named, items]
      cases item <;> simp [HeaderItem.named?, ParameterList.restNamed]
  | cons item comma rest ih =>
      rw [read, item.named_read, ParameterList.restNamed, Option.elim_some, ih, named, named, items]
      cases item <;> simp [HeaderItem.named?, List.filterMap_cons]

end HeaderList

/-! ### Headers -/

/-- The header of a function, from its word on. -/
structure DefHeader where
  word : Sign (.keyword .kDef)
  name : Sign .identifier
  opening : Sign .leftParen
  parameters : HeaderList
  closing : Sign .rightParen
  result : Option ResultClause
  colon : Sign .colon

namespace DefHeader

def tokens (header : DefHeader) : List Token :=
  header.word.token :: header.name.token :: header.opening.token ::
    (header.parameters.tokens ++ header.closing.token ::
      (header.result.elim [] ResultClause.tokens ++ [header.colon.token]))

/-- The header that the scanner finds in the tokens. -/
def read (header : DefHeader) : FunctionHead :=
  { header with decorators := [], async := none, parameters := header.parameters.read }

theorem signature_read (header : DefHeader) : header.read.signature = header.tokens := by
  rw [tokens, ← header.parameters.tokens_read]
  rfl

end DefHeader

/-! ### What is declared -/

theorem length_le_pieces (written : List HeaderParameter) :
    written.length ≤ (written.flatMap HeaderParameter.pieces).length := by
  induction written with
  | nil => exact le_rfl
  | cons p written ih =>
      rw [List.flatMap_cons, List.length_append, p.length_pieces, List.length_cons]
      omega

/-- Where there are no more pieces than parameters, nothing is cut. -/
theorem argumentCount_le_one {written : List HeaderParameter}
    (h : (written.flatMap HeaderParameter.pieces).length ≤ written.length) :
    ∀ p ∈ written, p.argumentCount ≤ 1 := by
  induction written with
  | nil => exact fun p hp => absurd hp List.not_mem_nil
  | cons q written ih =>
      have hrest := length_le_pieces written
      rw [List.flatMap_cons, List.length_append, q.length_pieces, List.length_cons] at h
      intro p hp
      rcases List.mem_cons.1 hp with rfl | hp
      · omega
      · exact ih (by omega) p hp

theorem declares_of_whole {source : Bytes} {written : List HeaderParameter}
    {declared : List Parameter}
    (h : List.Forall₂ (NamedParameter.Declares source) (written.flatMap HeaderParameter.pieces)
      declared)
    (hwhole : ∀ p ∈ written, p.argumentCount ≤ 1) :
    List.Forall₂ (HeaderParameter.Declares source) written declared := by
  induction written generalizing declared with
  | nil =>
      cases h
      exact .nil
  | cons p written ih =>
      obtain ⟨hp, hrest⟩ := List.forall_mem_cons.1 hwhole
      rw [List.flatMap_cons, p.pieces_whole hp] at h
      cases h with
      | cons hfirst hmore => exact .cons (p.declares_of_firstPiece hp hfirst) (ih hmore hrest)

/-- Where functions are collected, an accepted header is declared with its own parameters. -/
theorem functionDef_declares {context : ScanContext} {scope : Scope} {c : TokenCursor}
    {header : FunctionHeader} (h : (functionHeader context.source c).header = some header)
    (hcollected : scope.collected = true) (decorators : List Bytes) (start : Position) :
    ∃ declared, (functionDef context scope decorators start c).1.declarations = [declared] ∧
      declared.name? = some header.name ∧
      declared.parameters = ownParameters scope.kind decorators header.parameters := by
  rw [functionDef_of_some h]
  simp only [Findings.declarations_append, functionFindings, hcollected, if_true]
  refine ⟨_, rfl, ?_, ?_⟩
  · split <;> rfl
  · split <;> rfl

/-- The header of a function is accepted at any place of a file.  It declares the pieces that its
parameters are cut into; these are the parameters that are written, with their whole defaults, if and
only if no default is a lambda expression with a second argument. -/
theorem functionDef_declares_iff (context : ScanContext) (scope : Scope) (decorators : List Bytes)
    (start : Position) {c : TokenCursor} {rest : List Token} (header : DefHeader)
    (hplace : (TokenCursor.ofTokens (LexedSource.ofSource context.source).tokens).LeadsTo c)
    (hafter : c.after = header.tokens ++ rest) (hcollected : scope.collected = true) :
    ∃ parameters declared,
      (functionHeader context.source c).faults = [] ∧
      (functionDef context scope decorators start c).1.declarations = [declared] ∧
      declared.name? = some header.name.declaredName ∧
      declared.parameters = ownParameters scope.kind decorators parameters ∧
      List.Forall₂ (NamedParameter.Declares context.source)
        (header.parameters.named.flatMap HeaderParameter.pieces) parameters ∧
      (List.Forall₂ (HeaderParameter.Declares context.source) header.parameters.named parameters ↔
        ∀ p ∈ header.parameters.named, p.argumentCount ≤ 1) := by
  have hsignature : c.after = header.read.signature ++ rest := by
    rw [header.signature_read, hafter]
  have hheader := functionHeader_signature context.source header.read hsignature
  have hstanding : Standing context.source header.parameters.read.tokens := by
    have hfile := hplace.standing
    rw [hsignature] at hfile
    have hsub : header.parameters.read.tokens.Sublist header.read.signature :=
      (((List.sublist_append_left _ _).cons _).cons _).cons _
    exact hfile.left.sublist hsub
  have hpieces := header.parameters.read.declares_parameters hstanding
  rw [header.parameters.named_read] at hpieces
  obtain ⟨declared, hdeclared, hname, hparameters⟩ :=
    functionDef_declares (congrArg HeaderScan.header hheader) hcollected decorators start
  -- Where something is cut, there are more pieces than parameters.
  exact ⟨_, declared, congrArg HeaderScan.faults hheader, hdeclared, hname, hparameters, hpieces,
    fun hwritten => argumentCount_le_one (hpieces.length_eq.trans hwritten.length_eq.symm).le,
    declares_of_whole hpieces⟩

/-- A default that is a lambda expression with two arguments. -/
def lambdaSource : Bytes := ascii "def f(x=lambda a, b: a):\n    pass\n"

/-- The header of `lambdaSource`. -/
def lambdaHeader : DefHeader where
  word := ⟨⟨.onFirstLine (.keyword .kDef) (ascii "def") 0, rfl⟩, by decide⟩
  name := ⟨⟨.onFirstLine .identifier (ascii "f") 4, rfl⟩, by decide⟩
  opening := ⟨⟨.onFirstLine .leftParen (ascii "(") 5, rfl⟩, by decide⟩
  parameters := .last (.named {
    stars := .none
    name := ⟨⟨.onFirstLine .identifier (ascii "x") 6, rfl⟩, by decide⟩
    typeClause := none
    default? := some (.lambda ⟨⟨.onFirstLine .assign (ascii "=") 7, rfl⟩, by decide⟩ {
      word := ⟨⟨.onFirstLine (.keyword .kLambda) (ascii "lambda") 8, rfl⟩, by decide⟩
      arguments := some
        (⟨.none, ⟨⟨.onFirstLine .identifier (ascii "a") 15, rfl⟩, by decide⟩⟩,
          [(⟨⟨.onFirstLine .comma (ascii ",") 16, rfl⟩, by decide⟩,
            ⟨.none, ⟨⟨.onFirstLine .identifier (ascii "b") 18, rfl⟩, by decide⟩⟩)])
      body := ⟨⟨⟨.onFirstLine .colon (ascii ":") 19, rfl⟩, by decide⟩,
        ⟨[.onFirstLine .identifier (ascii "a") 21], by decide, by decide⟩, by decide⟩
      inner := none }) })
  closing := ⟨⟨.onFirstLine .rightParen (ascii ")") 22, rfl⟩, by decide⟩
  result := none
  colon := ⟨⟨.onFirstLine .colon (ascii ":") 23, rfl⟩, by decide⟩

def lambdaCursor : TokenCursor := .ofTokens (LexedSource.ofSource lambdaSource).tokens

theorem functionDef_declares_iff_lambdaHeader :
    ((TokenCursor.ofTokens (LexedSource.ofSource lambdaSource).tokens).LeadsTo lambdaCursor ∧
      lambdaCursor.after = lambdaHeader.tokens ++ lambdaCursor.after.drop 13) ∧
    ∃ parameters declared,
      (functionHeader lambdaSource lambdaCursor).faults = [] ∧
      (functionDef ⟨lambdaSource, []⟩ ⟨.atModule, true⟩ [] {} lambdaCursor).1.declarations =
        [declared] ∧
      declared.name? = some lambdaHeader.name.declaredName ∧
      declared.parameters = ownParameters .atModule [] parameters ∧
      List.Forall₂ (NamedParameter.Declares lambdaSource)
        (lambdaHeader.parameters.named.flatMap HeaderParameter.pieces) parameters ∧
      ¬ List.Forall₂ (HeaderParameter.Declares lambdaSource) lambdaHeader.parameters.named
        parameters := by
  have hplace : (TokenCursor.ofTokens (LexedSource.ofSource lambdaSource).tokens).LeadsTo
      lambdaCursor := leadsTo_skip _ 0
  have hafter : lambdaCursor.after = lambdaHeader.tokens ++ lambdaCursor.after.drop 13 := by cbv
  obtain ⟨parameters, declared, hfaults, hdeclared, hname, hparameters, hpieces, hiff⟩ :=
    functionDef_declares_iff ⟨lambdaSource, []⟩ ⟨.atModule, true⟩ [] {} lambdaHeader hplace hafter rfl
  have hsecond : ¬ ∀ p ∈ lambdaHeader.parameters.named, p.argumentCount ≤ 1 := by decide
  exact ⟨⟨hplace, hafter⟩, parameters, declared, hfaults, hdeclared, hname, hparameters, hpieces,
    fun hwritten => hsecond (hiff.1 hwritten)⟩

theorem ScannedSource.parameters_lambdaSource :
    (ofSource lambdaSource).isAccepted = true ∧
      (ofSource lambdaSource).declarations.tail.map (fun d =>
        d.parameters.map fun p => (p.name, p.declaredType, p.defaultValue)) =
      [[(ascii "x", none, some (ascii "lambda a")), (ascii "b", some (ascii "a"), none)]] := by
  cbv

end DocLint
