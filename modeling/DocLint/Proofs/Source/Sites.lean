import DocLint.Proofs.Source.Reading

/-!
# Where declarations stand

A declaration is made of one stretch of the tokens: a definition of those from its first decorator or
word to the end of its suite, with the methods of a class inside of the suite; a constant of its
assignment, the newline and the docstring below it.

* `Defines`, `Assigns`: a declaration, and the tokens that it is made of.
* `Holds`: the declarations that consecutive tokens hold.
* `scan_holds`: what a scan finds is held by the tokens that it reads.
* `ScannedSource.ofTokens_holds`: so it is with the declarations of a file, but for the module.
-/

namespace DocLint

open Scanner TokenCursor

/-! ### Declarations and their tokens -/

/-- The kinds of declarations. -/
inductive DeclarationKind
  | moduleKind
  | classKind
  | functionKind
  | methodKind
  | constantKind
deriving DecidableEq, Repr

/-- The kind of what is declared. -/
def DeclarationForm.kind : DeclarationForm → DeclarationKind
  | moduleDecl => .moduleKind
  | classDecl _ _ => .classKind
  | functionDecl _ _ _ => .functionKind
  | methodDecl _ _ _ => .methodKind
  | constantDecl _ => .constantKind

/-- The tokens of a definition: its decorators and what else stands in front of its word, its header
and its suite. -/
structure DefinitionTokens where
  front : List Token
  header : HeaderTokens
  suite : List Token

namespace DefinitionTokens

/-- All of them, in order. -/
def tokens (s : DefinitionTokens) : List Token := s.front ++ (s.header.tokens ++ s.suite)

/-- The first one. -/
def first (s : DefinitionTokens) : Token := s.front.headD s.header.word

/-- The name of a definition, with what stands in front of it and what stands behind. -/
theorem tokens_eq (s : DefinitionTokens) :
    s.tokens = (s.front ++ [s.header.word]) ++
      s.header.name :: (s.header.middle ++ s.header.colon :: s.suite) := by
  simp [tokens, HeaderTokens.tokens]

theorem exists_cons (s : DefinitionTokens) : ∃ rest, s.front ++ [s.header.word] = s.first :: rest := by
  rw [first]
  cases s.front with
  | nil => exact ⟨[], rfl⟩
  | cons t front => exact ⟨front ++ [s.header.word], rfl⟩

/-- The first token and the colon of a definition. -/
theorem exists_tokens_eq (s : DefinitionTokens) :
    ∃ front, s.tokens = (s.first :: front) ++ s.header.colon :: s.suite := by
  obtain ⟨rest, hfirst⟩ := s.exists_cons
  refine ⟨rest ++ s.header.name :: s.header.middle, ?_⟩
  rw [s.tokens_eq, hfirst]
  simp

theorem middle_isInfix (s : DefinitionTokens) : s.header.middle <:+: s.tokens :=
  ⟨s.front ++ [s.header.word, s.header.name], s.header.colon :: s.suite, by simp [s.tokens_eq]⟩

theorem suite_isSuffix (s : DefinitionTokens) : s.suite <:+ s.tokens :=
  ⟨s.front ++ s.header.tokens, List.append_assoc _ _ _⟩

end DefinitionTokens

variable {comments : List Comment}

/-- The declaration is what the tokens define, with the comments that belong to its header. -/
structure Defines (comments : List Comment) (s : DefinitionTokens) (d : Declaration) : Prop where
  name_kind : s.header.name.kind = .identifier
  name_eq : d.name? = some ⟨s.header.name.text, s.header.name.span⟩
  colon_kind : s.header.colon.kind = .colon
  first_kind : s.first.kind.isWritten = true
  start_eq : d.span.start = s.first.position
  stop_eq : (∃ t ∈ s.tokens, t.isSolid = true) → d.span.stop = fileStop s.tokens
  parameters : ∀ p ∈ d.parameters,
    p.IsItemOf (if d.form.isCallable then s.header.middle else s.suite)
  docstring : ∀ literal ∈ d.docstring, literal.IsFrom s.suite
  noqa_eq : d.noqa = Noqa.codesFor d.span.start.line s.header.colon.position.line comments

/-- The tokens of a constant: its name and the rest of the assignment, the newline, and the docstring
below. -/
structure ConstantTokens where
  name : Token
  assignment : List Token
  newline : Token
  below : List Token

namespace ConstantTokens

/-- All of them, in order. -/
def tokens (s : ConstantTokens) : List Token := s.name :: s.assignment ++ s.newline :: s.below

end ConstantTokens

/-- The declaration is the constant that the tokens assign to, with the comments that belong to the
assignment. -/
structure Assigns (comments : List Comment) (s : ConstantTokens) (d : Declaration) : Prop where
  name_kind : s.name.kind = .identifier
  form_eq : d.form = .constantDecl ⟨s.name.text, s.name.span⟩
  newline_kind : s.newline.kind = .newline
  start_eq : d.span.start = s.name.position
  stop_eq : (∃ t ∈ s.name :: s.assignment, t.isSolid = true) →
    d.span.stop = fileStop (s.name :: s.assignment)
  docstring : ∀ literal ∈ d.docstring, literal.IsFrom s.below
  noqa_eq : d.noqa = Noqa.codesFor d.span.start.line s.newline.position.line comments

/-- The declarations in a suite stand on lines of their own, below the header. -/
def DeclaresBelow (suite : List Token) (ds : List Declaration) : Prop :=
  ds = [] ∨ ∃ t ∈ suite.head?, t.kind = .newline

/-- What consecutive tokens, with others behind them, hold of declarations in a scope: nothing, or
what the one part and then the other part of them hold, or a definition, with the methods that the
suite of a class holds, or a constant. -/
inductive Holds (comments : List Comment) :
    ScopeKind → List Token → List Token → List Declaration → Prop
  | nothing {kind : ScopeKind} {run rest : List Token} : Holds comments kind run rest []
  | append {kind : ScopeKind} {run more rest : List Token} {ds es : List Declaration}
      (first : Holds comments kind run (more ++ rest) ds) (second : Holds comments kind more rest es) :
      Holds comments kind (run ++ more) rest (ds ++ es)
  | function {kind : ScopeKind} {s : DefinitionTokens} {rest : List Token} {d : Declaration}
      (defines : Defines comments s d)
      (form : d.form.kind = if kind = .inClass then .methodKind else .functionKind)
      (ends : ClosesLine s.suite rest) : Holds comments kind s.tokens rest [d]
  | classDef {s : DefinitionTokens} {rest : List Token} {d : Declaration}
      {methods : List Declaration} (defines : Defines comments s d)
      (form : d.form.kind = .classKind) (ends : ClosesLine s.suite rest)
      (below : DeclaresBelow s.suite methods) (body : Holds comments .inClass s.suite rest methods) :
      Holds comments .atModule s.tokens rest (d :: methods)
  | constant {s : ConstantTokens} {rest : List Token} {d : Declaration}
      (assigns : Assigns comments s d) : Holds comments .atModule s.tokens rest [d]

/-- What is found in some tokens, with others behind them: in a scope that is collected the declarations
that they hold, in other scopes none, and the parameters of an initializer. -/
structure Finds (comments : List Comment) (scope : Scope) (run rest : List Token) (f : Findings) :
    Prop where
  declarations : if scope.collected then Holds comments scope.kind run rest f.declarations
    else f.declarations = []
  initializer : ∀ list ∈ f.initializer, ∀ p ∈ list, p.IsItemOf run

namespace Finds

variable {scope : Scope} {run more rest : List Token} {f g : Findings}

/-- Where nothing is declared, it does not matter in which scope. -/
theorem of_empty (hdeclarations : f.declarations = [])
    (hinitializer : ∀ list ∈ f.initializer, ∀ p ∈ list, p.IsItemOf run) :
    Finds comments scope run rest f := by
  refine ⟨?_, hinitializer⟩
  rw [hdeclarations]
  split
  · exact .nothing
  · rfl

theorem nothing (hdeclarations : f.declarations = []) (hinitializer : f.initializer = none) :
    Finds comments scope run rest f :=
  of_empty hdeclarations (by simp [hinitializer])

/-- What is found in the one part and then in the other part of the tokens. -/
theorem append (h : Finds comments scope run (more ++ rest) f)
    (hmore : Finds comments scope more rest g) :
    Finds comments scope (run ++ more) rest (f ++ g) := by
  refine ⟨?_, fun list hlist p hp => ?_⟩
  · have hfirst := h.declarations
    have hsecond := hmore.declarations
    rw [Findings.declarations_append]
    split
    next hcollected =>
      rw [if_pos hcollected] at hfirst hsecond
      exact .append hfirst hsecond
    next hcollected =>
      rw [if_neg hcollected] at hfirst hsecond
      rw [hfirst, hsecond, List.append_nil]
  · rw [Findings.initializer_append, Option.mem_def, Option.or_eq_some_iff] at hlist
    rcases hlist with hlist | ⟨-, hlist⟩
    · exact (hmore.initializer list hlist p hp).mono (List.suffix_append run more).isInfix
    · exact (h.initializer list hlist p hp).mono (List.prefix_append run more).isInfix

/-- What is found by reading on. -/
theorem reads {c d : TokenCursor} (h : Finds comments scope run c.after f)
    (hreads : c.Reads more d) (hmore : Finds comments scope more d.after g) :
    Finds comments scope (run ++ more) d.after (f ++ g) :=
  append (hreads.after_eq ▸ h) hmore

/-- Tokens in front that hold nothing. -/
theorem prepend (h : Finds comments scope run rest f) (front : List Token) :
    Finds comments scope (front ++ run) rest f := by
  have hfront : Finds comments scope front (run ++ rest) {} := nothing rfl rfl
  rw [← Findings.empty_append f]
  exact hfront.append h

/-- Findings in front that declare nothing. -/
theorem behind (h : Finds comments scope run rest g) (hdeclarations : f.declarations = [])
    (hinitializer : f.initializer = none) : Finds comments scope run rest (f ++ g) := by
  have hfront : Finds comments scope [] (run ++ rest) f := nothing hdeclarations hinitializer
  exact hfront.append h

end Finds

/-! ### Definitions and constants -/

/-- What a scan reads, and what it finds there. -/
def Sited (comments : List Comment) (scope : Scope) (c : TokenCursor)
    (scan : Findings × TokenCursor) : Prop :=
  ∃ run, c.Reads run scan.2 ∧ Finds comments scope run scan.2.after scan.1

/-- The same of a scan that reads to the end of a line, where nothing is declared but constants of a
module. -/
def SitedLine (comments : List Comment) (scope : Scope) (c : TokenCursor)
    (scan : Findings × TokenCursor) : Prop :=
  (∃ run, c.Reads run scan.2 ∧ Finds comments scope run scan.2.after scan.1 ∧
    ClosesLine run scan.2.after) ∧ (scope.kind ≠ .atModule → scan.1.declarations = [])

/-- The same of a definition from its word on, behind the tokens in front of it. -/
def SitedDefinition (comments : List Comment) (scope : Scope) (start : Position) (c : TokenCursor)
    (scan : Findings × TokenCursor) : Prop :=
  ∀ origin front, origin.Reads front c → start = origin.position → c.after ≠ [] →
    (∀ t ∈ origin.after.head?, t.kind.isWritten = true) → Sited comments scope origin scan

/-- The same of a suite with its docstring. -/
def SitedSuite (comments : List Comment) (scope : Scope) (c : TokenCursor)
    (scan : Option DocLiteral × Findings × TokenCursor) : Prop :=
  ∃ run, c.Reads run scan.2.2 ∧ (∀ literal ∈ scan.1, literal.IsFrom run) ∧
    Finds comments scope run scan.2.2.after scan.2.1 ∧ ClosesLine run scan.2.2.after ∧
    (scope.kind ≠ .atModule → DeclaresBelow run scan.2.1.declarations)

namespace Scanner

variable {context : ScanContext} {scope : Scope} {c : TokenCursor}

theorem mem_ownParameters {kind : ScopeKind} {decorators : List Bytes} {parameters : List Parameter}
    {p : Parameter} (h : p ∈ ownParameters kind decorators parameters) : p ∈ parameters := by
  unfold ownParameters at h
  split at h
  · exact h
  · split at h
    · exact List.mem_cons_of_mem _ h
    · exact h

/-- A constant takes up its assignment, the newline and the docstring on the line below. -/
theorem constant?_reads {next : TokenCursor} {d : Declaration}
    (h : constant? context c = some (d, next)) :
    ∃ s, c.Reads s.tokens next ∧ Assigns context.comments s d := by
  unfold constant? at h
  dsimp only at h
  split at h
  · cases h
  next name rest hafter =>
    split at h
    next hbelow =>
      obtain ⟨⟨literal, behind⟩, hdocstring, heq⟩ := Option.map_eq_some_iff.1 h
      cases heq
      rw [Bool.and_eq_true, beq_iff_eq, hafter] at hbelow
      have hname := kind_of_isAssignment hbelow.1
      obtain ⟨hstatement, hhead⟩ := statementEnd_reads c
      have htokens : statementTokens c = name :: rest.takeWhile fun t => t.kind != .newline := by
        rw [statementTokens, hafter, List.takeWhile_cons_of_pos (by simp [hname])]
      rw [htokens] at hstatement
      generalize (rest.takeWhile fun t => t.kind != .newline) = assignment at hstatement
      cases hend : (statementEnd c).after with
      | nil =>
          -- At the end of the file no line is below.
          have hnone := skipIf_of_ne (isAt_nil hend (by decide : TokenKind.newline ≠ .eof))
          rw [hnone] at hbelow
          have hwrap := congrArg UInt32.toNat hbelow.2
          rw [UInt32.toNat_add] at hwrap
          have hlt := (statementEnd c).position.line.toNat_lt
          have hone : (1 : UInt32).toNat = 1 := rfl
          omega
      | cons newline more =>
          have hkind : newline.kind = .newline := hhead newline (by rw [hend]; rfl)
          have hline : (statementEnd c).Reads [newline] ((statementEnd c).skipIf .newline) := by
            rw [TokenCursor.skipIf, if_pos (by simp [isAt_eq hend, hkind])]
            exact .advance hend
          obtain ⟨t, below, hstring, hliteral, hbehind⟩ := docstring?_reads hdocstring
          refine ⟨⟨name, assignment, newline, t :: below⟩, ?_, ?_⟩
          · have hreads := (hstatement.trans hline).trans hbehind
            rwa [List.append_assoc] at hreads
          · refine ⟨hname, rfl, hkind, rfl, hstatement.lastStop_eq, fun l hl => ?_, ?_⟩
            · cases hl
              exact ⟨t, List.mem_cons_self, hstring, hliteral⟩
            · rw [position_eq hend]
    · cases h

section Definitions

variable {s : DefinitionTokens} {origin next : TokenCursor} (hreads : origin.Reads s.tokens next)
include hreads

/-- Where the tokens of a definition are ahead, the first one of them is the next token. -/
theorem exists_after_eq_first : ∃ rest, origin.after = s.first :: rest := by
  obtain ⟨front, hfront⟩ := s.exists_cons
  rw [hreads.after_eq, s.tokens_eq, hfront]
  exact ⟨_, rfl⟩

variable (hwritten : ∀ t ∈ origin.after.head?, t.kind.isWritten = true)
include hwritten

/-- A declaration with the name and the span of a definition is defined there. -/
theorem defines_of_reads {d : Declaration} {name : DeclaredName} {lastLine : UInt32}
    (hheader : s.header.IsHeader name lastLine) (hname : d.name? = some name)
    (hspan : d.span = ⟨origin.position, next.lastStop⟩)
    (hparameters : ∀ p ∈ d.parameters,
      p.IsItemOf (if d.form.isCallable then s.header.middle else s.suite))
    (hdocstring : ∀ literal ∈ d.docstring, literal.IsFrom s.suite)
    (hnoqa : d.noqa = Noqa.codesFor origin.position.line lastLine comments) :
    Defines comments s d := by
  have hstart : d.span.start = origin.position := by rw [hspan]
  obtain ⟨rest, hafter⟩ := exists_after_eq_first hreads
  refine ⟨hheader.name_kind, hname.trans (congrArg some hheader.name_eq), hheader.colon_kind,
    hwritten _ (by rw [hafter]; rfl), hstart.trans (position_eq hafter), fun hsolid => ?_, hparameters,
    hdocstring, ?_⟩
  · rw [hspan]
    exact hreads.lastStop_eq hsolid
  · rw [hnoqa, hstart, hheader.lastLine_eq]

variable {docstring : Option DocLiteral} (hdocstring : ∀ literal ∈ docstring, literal.IsFrom s.suite)
  (hends : ClosesLine s.suite next.after)
include hdocstring hends

/-- What a function definition contributes is defined by its tokens. -/
theorem functionFindings_finds {header : FunctionHeader} {parameters : List Parameter}
    (hheader : s.header.IsHeader header.name header.lastLine)
    (hparameters : ∀ p ∈ parameters, p.IsItemOf s.header.middle) (counts : BodyCounts) :
    Finds context.comments scope s.tokens next.after
      (functionFindings context scope origin.position header parameters docstring counts
        next.lastStop) := by
  refine ⟨?_, fun list hlist p hp => ?_⟩
  · dsimp only [functionFindings]
    cases scope.collected with
    | false => rfl
    | true =>
        refine .function (defines_of_reads hreads hwritten hheader ?_ rfl ?_ hdocstring rfl) ?_ hends
        · dsimp only [Declaration.name?]
          split <;> rfl
        · dsimp only [Declaration.parameters]
          split <;> exact hparameters
        · dsimp only
          split <;> rfl
  · dsimp only [functionFindings] at hlist
    split at hlist
    · cases hlist
      exact (hparameters p hp).mono s.middle_isInfix
    · cases hlist

/-- What a class definition contributes is defined by its tokens, and by those of its suite. -/
theorem classFindings_finds {header : ClassHeader}
    (hheader : s.header.IsHeader header.name header.lastLine) {body : Findings}
    (hbody : Finds context.comments ⟨.inClass, isCollectedClass scope⟩ s.suite next.after body)
    (hbelow : DeclaresBelow s.suite body.declarations) :
    Finds context.comments scope s.tokens next.after
      (classFindings context scope origin.position header docstring body next.lastStop) := by
  unfold classFindings
  split
  next hcollected =>
    have hmethods := hbody.declarations
    rw [if_pos hcollected] at hmethods
    rw [isCollectedClass, Bool.and_eq_true, beq_iff_eq] at hcollected
    refine ⟨?_, by simp⟩
    rw [if_pos hcollected.1, hcollected.2]
    refine .classDef (defines_of_reads hreads hwritten hheader rfl rfl ?_ hdocstring rfl) rfl hends
      hbelow hmethods
    -- The parameters of a class are those of the initializer in its suite.
    show ∀ p ∈ body.initializer.getD [], p.IsItemOf s.suite
    cases hinitializer : body.initializer with
    | none => simp
    | some list => exact hbody.initializer list hinitializer
  · exact .nothing rfl rfl

end Definitions

/-- A refused header declares nothing. -/
theorem classDef_of_none_sited {start : Position} (hnone : (classHeader c).header = none) :
    SitedDefinition context.comments scope start c (classDef context scope start c) := by
  intro origin front hfront _ hne _
  obtain ⟨word, rest, hafter⟩ := List.exists_cons_of_ne_nil hne
  obtain ⟨run, hreads, -⟩ := classHeader_reads hafter
  rw [classDef_of_none hnone]
  exact ⟨_, hfront.trans hreads, .nothing rfl rfl⟩

theorem classDef_of_some_sited {start : Position} {header : ClassHeader}
    (hsome : (classHeader c).header = some header)
    (hsuite : SitedSuite context.comments ⟨.inClass, isCollectedClass scope⟩ (classHeader c).rest
      (suite context ⟨.inClass, isCollectedClass scope⟩ (classHeader c).rest)) :
    SitedDefinition context.comments scope start c (classDef context scope start c) := by
  intro origin front hfront hstart hne hwritten
  obtain ⟨word, rest, hafter⟩ := List.exists_cons_of_ne_nil hne
  obtain ⟨run, hreads, hheader⟩ := classHeader_reads hafter
  obtain ⟨s, rfl, hisHeader⟩ := hheader header hsome
  obtain ⟨body, hbody, hdocstring, hfinds, hends, hbelow⟩ := hsuite
  have hall : origin.Reads (DefinitionTokens.tokens ⟨front, s, body⟩) _ :=
    hfront.trans (hreads.trans hbody)
  rw [classDef_of_some hsome, hstart]
  exact ⟨_, hall, (classFindings_finds hall hwritten hdocstring hends hisHeader hfinds
    (hbelow ScopeKind.noConfusion)).behind rfl rfl⟩

theorem functionDef_of_none_sited {decorators : List Bytes} {start : Position}
    (hnone : (functionHeader context.source c).header = none) :
    SitedDefinition context.comments scope start c
      (functionDef context scope decorators start c) := by
  intro origin front hfront _ hne _
  obtain ⟨word, rest, hafter⟩ := List.exists_cons_of_ne_nil hne
  obtain ⟨run, hreads, -⟩ := functionHeader_reads hafter context.source
  rw [functionDef_of_none hnone]
  exact ⟨_, hfront.trans hreads, .nothing rfl rfl⟩

theorem functionDef_of_some_sited {decorators : List Bytes} {start : Position}
    {header : FunctionHeader} (hsome : (functionHeader context.source c).header = some header)
    (hsuite : SitedSuite context.comments ⟨.inFunction, false⟩ (functionHeader context.source c).rest
      (suite context ⟨.inFunction, false⟩ (functionHeader context.source c).rest)) :
    SitedDefinition context.comments scope start c
      (functionDef context scope decorators start c) := by
  intro origin front hfront hstart hne hwritten
  obtain ⟨word, rest, hafter⟩ := List.exists_cons_of_ne_nil hne
  obtain ⟨run, hreads, hheader⟩ := functionHeader_reads hafter context.source
  obtain ⟨s, rfl, hisHeader, hparameters⟩ := hheader header hsome
  obtain ⟨body, hbody, hdocstring, -, hends, -⟩ := hsuite
  have hall : origin.Reads (DefinitionTokens.tokens ⟨front, s, body⟩) _ :=
    hfront.trans (hreads.trans hbody)
  rw [functionDef_of_some hsome, hstart]
  exact ⟨_, hall, (functionFindings_finds hall hwritten hdocstring hends hisHeader
    (fun p hp => hparameters p (mem_ownParameters hp)) _).behind rfl rfl⟩

/-! ### Statements -/

/-- A definition is found with the decorators in front of it. -/
theorem decorated_sited {scan : Findings × TokenCursor} {k : Keyword}
    (hat : (skipAsync (decorators c).2).isAt (.keyword k) = true)
    (h : SitedDefinition comments scope c.position (skipAsync (decorators c).2) scan) :
    Sited comments scope c scan := by
  obtain ⟨front, hfront⟩ := definition_reads c
  obtain ⟨word, rest, hafter, -⟩ := exists_of_isAt hat TokenKind.noConfusion
  exact h c front hfront rfl (hafter ▸ List.cons_ne_nil word rest) (definition_isWritten hat)

theorem statement_mark_sited (hmark : (c.isAt .newline || c.isAt .dedent) = true) :
    Sited context.comments scope c (statement context scope c) := by
  rw [statement_mark hmark]
  exact ⟨_, .skip c 1, .nothing rfl rfl⟩

section Statement

variable (hmark : ¬ (c.isAt .newline || c.isAt .dedent) = true)
include hmark

theorem statement_indented_sited (hindent : c.isAt .indent = true)
    (hblock : Sited context.comments scope c.advance (block context scope c.advance)) :
    Sited context.comments scope c (statement context scope c) := by
  obtain ⟨run, hreads, hfinds⟩ := hblock
  rw [statement_indented hmark hindent]
  exact ⟨_, (Reads.skip c 1).trans hreads, hfinds.prepend _⟩

theorem statement_simple_sited (hindent : ¬ c.isAt .indent = true)
    (hdef : ¬ (skipAsync (decorators c).2).isAt (.keyword .kDef) = true)
    (hclass : ¬ (skipAsync (decorators c).2).isAt (.keyword .kClass) = true)
    (hsimple : SitedLine context.comments scope (skipAsync (decorators c).2)
      (simpleStatement context scope (skipAsync (decorators c).2))) :
    Sited context.comments scope c (statement context scope c) := by
  obtain ⟨front, hfront⟩ := definition_reads c
  obtain ⟨⟨run, hreads, hfinds, -⟩, -⟩ := hsimple
  rw [statement_simple hmark hindent hdef hclass]
  exact ⟨_, hfront.trans hreads, (hfinds.behind rfl rfl).prepend front⟩

end Statement

/-- The block of a compound statement is not collected. -/
theorem simpleStatement_compound_sited (hcompound : (isCompound (statementTokens c) &&
      ((statementEnd c).skipIf .newline).isAt .indent) = true)
    (hblock : Sited context.comments (blockScope scope) ((statementEnd c).skipIf .newline).advance
      (block context (blockScope scope) ((statementEnd c).skipIf .newline).advance)) :
    SitedLine context.comments scope c (simpleStatement context scope c) := by
  obtain ⟨line, hline, hends⟩ := statementLine_reads c
  obtain ⟨run, hreads, hfinds⟩ := hblock
  have hbehind := (Reads.skip ((statementEnd c).skipIf .newline) 1).trans hreads
  rw [simpleStatement_compound hcompound]
  generalize block context (blockScope scope) ((statementEnd c).skipIf .newline).advance = body
    at hbehind hfinds ⊢
  have hnone : body.1.declarations = [] := hfinds.declarations
  have hbody : Finds context.comments scope run body.2.after body.1 :=
    .of_empty hnone hfinds.initializer
  refine ⟨⟨_, hline.trans hbehind, ((hbody.behind rfl rfl).prepend _).prepend line,
    hends.reads hbehind⟩, fun _ => ?_⟩
  rw [Findings.declarations_append, hnone]
  rfl

/-- A statement on one line declares nothing, or the constant that is assigned to. -/
theorem simpleStatement_line_sited (hline : ¬ (isCompound (statementTokens c) &&
      ((statementEnd c).skipIf .newline).isAt .indent) = true) :
    SitedLine context.comments scope c (simpleStatement context scope c) := by
  rw [simpleStatement_line hline]
  split
  next =>
    obtain ⟨line, hreads, hends⟩ := statementLine_reads c
    exact ⟨⟨line, hreads, .nothing rfl rfl, hends⟩, fun _ => rfl⟩
  next declaration rest hsome =>
    split at hsome
    next hcollected =>
      obtain ⟨s, hreads, hassigns⟩ := constant?_reads hsome
      rw [Bool.and_eq_true, beq_iff_eq] at hcollected
      refine ⟨⟨_, hreads, ⟨?_, by simp⟩, .inl ⟨s.newline, by simp [ConstantTokens.tokens],
        hassigns.newline_kind⟩⟩, fun hkind => absurd hcollected.1 hkind⟩
      rw [if_pos hcollected.2, hcollected.1]
      exact .constant hassigns
    · cases hsome

/-! ### Blocks and suites -/

theorem block_end_sited (hend : (c.isAt .dedent || c.atEnd) = true) :
    Sited context.comments scope c (block context scope c) := by
  obtain ⟨run, hreads⟩ := Reads.skipIf c .dedent
  rw [block_end hend]
  exact ⟨run, hreads, .nothing rfl rfl⟩

theorem block_more_sited (hmore : ¬ (c.isAt .dedent || c.atEnd) = true)
    (hshorter : (statement context scope c).2.length < c.length)
    (hfirst : Sited context.comments scope c (statement context scope c))
    (hblock : Sited context.comments scope (statement context scope c).2
      (block context scope (statement context scope c).2)) :
    Sited context.comments scope c (block context scope c) := by
  obtain ⟨run, hreads, hfinds⟩ := hfirst
  obtain ⟨more, hbehind, hothers⟩ := hblock
  rw [block_more hmore hshorter]
  exact ⟨_, hreads.trans hbehind, hfinds.reads hbehind hothers⟩

section Below

variable (hline : c.isAt .newline = true)
include hline

theorem suite_block_docstring_sited (hindent : c.advance.isAt .indent = true)
    {literal : DocLiteral} {rest : TokenCursor}
    (hdocstring : docstring? c.advance.advance = some (literal, rest))
    (hblock : Sited context.comments scope rest (block context scope rest)) :
    SitedSuite context.comments scope c (suite context scope c) := by
  obtain ⟨mark, hmark, -, hnewline⟩ := Reads.advance_of_isAt hline (by decide)
  obtain ⟨t, more, hstring, hliteral, hread⟩ := docstring?_reads hdocstring
  obtain ⟨run, hreads, hfinds⟩ := hblock
  have hhead := (hnewline.trans (.skip c.advance 1)).trans hread
  rw [suite_block_docstring hline hindent hdocstring]
  refine ⟨_, hhead.trans hreads, fun l hl => ?_, hfinds.prepend _, .inl ⟨mark, by simp, hmark⟩,
    fun _ => .inr ⟨mark, rfl, hmark⟩⟩
  cases hl
  exact ⟨t, by simp, hstring, hliteral⟩

theorem suite_block_sited (hindent : c.advance.isAt .indent = true)
    (hnone : docstring? c.advance.advance = none)
    (hblock : Sited context.comments scope c.advance.advance
      (block context scope c.advance.advance)) :
    SitedSuite context.comments scope c (suite context scope c) := by
  obtain ⟨mark, hmark, -, hnewline⟩ := Reads.advance_of_isAt hline (by decide)
  obtain ⟨run, hreads, hfinds⟩ := hblock
  rw [suite_block hline hindent hnone]
  exact ⟨_, (hnewline.trans (.skip c.advance 1)).trans hreads, by simp, hfinds.prepend _,
    .inl ⟨mark, by simp, hmark⟩, fun _ => .inr ⟨mark, rfl, hmark⟩⟩

theorem suite_unindented_sited (hindent : ¬ c.advance.isAt .indent = true) :
    SitedSuite context.comments scope c (suite context scope c) := by
  obtain ⟨mark, hmark, -, hnewline⟩ := Reads.advance_of_isAt hline (by decide)
  rw [suite_unindented hline (by simpa using hindent)]
  exact ⟨_, hnewline, by simp, .nothing rfl rfl, .inl ⟨mark, by simp, hmark⟩, fun _ => .inl rfl⟩

end Below

section Beside

variable (hline : ¬ c.isAt .newline = true)
include hline

/-- A docstring is the whole line, or in front of the rest of it. -/
theorem suite_docstring_sited {literal : DocLiteral} {rest : TokenCursor}
    (hdocstring : docstring? c = some (literal, rest))
    (hsimple : ¬ (rest.atEnd || rest.before.head?.any fun t => t.kind == .newline) = true →
      SitedLine context.comments scope rest (simpleStatement context scope rest)) :
    SitedSuite context.comments scope c (suite context scope c) := by
  obtain ⟨t, more, hstring, hliteral, hread⟩ := docstring?_reads hdocstring
  rw [suite_docstring hline hdocstring]
  split
  next hend =>
    refine ⟨_, hread, fun l hl => ?_, .nothing rfl rfl, ?_, fun _ => .inl rfl⟩
    · cases hl
      exact ⟨t, by simp, hstring, hliteral⟩
    · exact closesLine_of_head? hread (List.cons_ne_nil t more) hend
  next hmore =>
    obtain ⟨⟨run, hreads, hfinds, hends⟩, hnothing⟩ := hsimple hmore
    refine ⟨_, hread.trans hreads, fun l hl => ?_, hfinds.prepend _, hends.prepend _,
      fun hkind => .inl (hnothing hkind)⟩
    cases hl
    exact ⟨t, by simp, hstring, hliteral⟩

theorem suite_line_sited (hnone : docstring? c = none)
    (hsimple : ¬ c.atEnd = true →
      SitedLine context.comments scope c (simpleStatement context scope c)) :
    SitedSuite context.comments scope c (suite context scope c) := by
  rw [suite_line hline hnone]
  split
  next hend =>
    exact ⟨[], .refl c, by simp, .nothing rfl rfl, .inr (List.isEmpty_iff.1 hend), fun _ => .inl rfl⟩
  next hmore =>
    obtain ⟨⟨run, hreads, hfinds, hends⟩, hnothing⟩ := hsimple hmore
    exact ⟨run, hreads, by simp, hfinds, hends, fun hkind => .inl (hnothing hkind)⟩

end Beside

/-! ### The scan -/

/-- The tokens that a scan reads hold the declarations that it finds. -/
theorem scan_holds (context : ScanContext) :
    (∀ scope c, Sited context.comments scope c (statement context scope c)) ∧
      (∀ scope c, SitedLine context.comments scope c (simpleStatement context scope c)) ∧
      (∀ scope c, Sited context.comments scope c (block context scope c)) ∧
      (∀ scope start c,
        SitedDefinition context.comments scope start c (classDef context scope start c)) ∧
      (∀ scope c, SitedSuite context.comments scope c (suite context scope c)) ∧
      ∀ scope decorators start c, SitedDefinition context.comments scope start c
        (functionDef context scope decorators start c) := by
  apply statement.mutual_induct context
    (fun scope c => Sited context.comments scope c (statement context scope c))
    (fun scope c => SitedLine context.comments scope c (simpleStatement context scope c))
    (fun scope c => Sited context.comments scope c (block context scope c))
    (fun scope start c =>
      SitedDefinition context.comments scope start c (classDef context scope start c))
    (fun scope c => SitedSuite context.comments scope c (suite context scope c))
    (fun scope decorators start c => SitedDefinition context.comments scope start c
      (functionDef context scope decorators start c))
  -- A statement: a mark of the layout, a block, a definition, or another statement.
  case case1 =>
    intro scope c hmark
    exact statement_mark_sited hmark
  case case2 =>
    intro scope c hmark hindent hblock
    exact statement_indented_sited hmark hindent hblock
  case case3 =>
    intro scope c hmark hindent decorated here hdef hfunction
    rw [statement_def hmark hindent hdef]
    exact decorated_sited hdef hfunction
  case case4 =>
    intro scope c hmark hindent decorated here hdef hclass hclassDef
    rw [statement_class hmark hindent hdef hclass]
    exact decorated_sited hclass hclassDef
  case case5 =>
    intro scope c hmark hindent decorated here hdef hclass hsimple
    exact statement_simple_sited hmark hindent hdef hclass hsimple
  -- A statement that defines nothing, with its block or with the docstring of its constant.
  case case6 =>
    intro scope c words behind hcompound hblock
    exact simpleStatement_compound_sited hcompound hblock
  case case7 =>
    intro scope c words behind hline _ _
    exact simpleStatement_line_sited hline
  case case8 =>
    intro scope c words behind hline _ _ _ _
    exact simpleStatement_line_sited hline
  -- A block: its end, or a statement and the rest; one that reads nothing is the last.
  case case9 =>
    intro scope c hend
    exact block_end_sited hend
  case case10 =>
    intro scope c hmore first hshorter hfirst hblock
    exact block_more_sited hmore hshorter hfirst hblock
  case case11 =>
    intro scope c hmore first hsame hfirst
    rw [block, if_neg hmore]
    simp only
    rw [if_neg hsame]
    exact hfirst
  -- A definition: its header is refused, or its suite follows.
  case case12 =>
    intro scope start c scan hnone
    exact classDef_of_none_sited hnone
  case case13 =>
    intro scope start c scan header hsome hsuite
    exact classDef_of_some_sited hsome hsuite
  -- A suite: a block below the header, or a statement behind it.
  case case14 =>
    intro scope c hline here hindent literal rest hdocstring hblock
    exact suite_block_docstring_sited hline hindent hdocstring hblock
  case case15 =>
    intro scope c hline here hindent hnone hblock
    exact suite_block_sited hline hindent hnone hblock
  case case16 =>
    intro scope c hline here hindent
    exact suite_unindented_sited hline hindent
  case case17 =>
    intro scope c hline literal rest hdocstring hend
    exact suite_docstring_sited hline hdocstring fun hmore => absurd hend hmore
  case case18 =>
    intro scope c hline literal rest hdocstring hmore hsimple
    exact suite_docstring_sited hline hdocstring fun _ => hsimple
  case case19 =>
    intro scope c hline hnone hend
    exact suite_line_sited hline hnone fun hmore => absurd hend hmore
  case case20 =>
    intro scope c hline hnone hmore hsimple
    exact suite_line_sited hline hnone fun _ => hsimple
  case case21 =>
    intro scope decorators start c scan hnone
    exact functionDef_of_none_sited hnone
  case case22 =>
    intro scope decorators start c scan header hsome hsuite
    exact functionDef_of_some_sited hsome hsuite

/-- The tokens ahead hold the declarations of a file. -/
theorem statements_holds (context : ScanContext) (c : TokenCursor) :
    ∃ run rest, c.after = run ++ rest ∧
      Holds context.comments .atModule run rest (statements context c).declarations := by
  fun_induction statements context c with
  | case1 c _ => exact ⟨[], c.after, rfl, .nothing⟩
  | case2 c _ first _ ih =>
      obtain ⟨run, hreads, hfinds⟩ := (scan_holds context).1 ⟨.atModule, true⟩ c
      obtain ⟨more, rest, hafter, hothers⟩ := ih
      refine ⟨run ++ more, rest, ?_, .append ?_ hothers⟩
      · rw [hreads.after_eq, hafter, List.append_assoc]
      · rw [← hafter]
        exact hfinds.declarations
  | case3 c _ first _ =>
      obtain ⟨run, hreads, hfinds⟩ := (scan_holds context).1 ⟨.atModule, true⟩ c
      exact ⟨run, _, hreads.after_eq, hfinds.declarations⟩

end Scanner

/-! ### Files -/

/-- The line on which the header of a module ends: the last one of its docstring, or the one on which
the tokens begin. -/
def lastModuleLine (tokens : List Token) (docstring : Option DocLiteral) : UInt32 :=
  match docstring with
  | some literal => literal.stop.line
  | none => (TokenCursor.ofTokens tokens).position.line

/-- The declaration is the module of the tokens: its docstring is the first one of them, and the
comments from there to the last line of its header belong to it. -/
structure IsModule (comments : List Comment) (tokens : List Token) (d : Declaration) : Prop where
  form_eq : d.form = .moduleDecl
  span_eq : d.span = ⟨{}, fileStop tokens⟩
  docstring : ∀ literal ∈ d.docstring, ∃ t ∈ tokens.dropLast, t.kind = .string ∧
    literal = .ofText t.text t.position ∧ (TokenCursor.ofTokens tokens).position = t.position
  noqa_eq : d.noqa = Noqa.codesFor (TokenCursor.ofTokens tokens).position.line
    (lastModuleLine tokens d.docstring) comments

/-- The declarations of a file are the module and those that tokens of the file hold. -/
theorem ScannedSource.ofTokens_holds (context : ScanContext) (tokens : List Token) :
    ∃ file ds run rest, (ofTokens context tokens).declarations = file :: ds ∧
      IsModule context.comments tokens file ∧ Holds context.comments .atModule run rest ds ∧
      run <:+: tokens.dropLast := by
  unfold ofTokens
  dsimp only
  cases hdocstring : docstring? (TokenCursor.ofTokens tokens) with
  | none =>
      obtain ⟨run, rest, hafter, hholds⟩ := statements_holds context (TokenCursor.ofTokens tokens)
      have hrun : run ++ rest = tokens.dropLast := hafter.symm
      exact ⟨_, _, run, rest, rfl, ⟨rfl, rfl, by simp, rfl⟩, hholds, hrun ▸ List.infix_append' [] _ _⟩
  | some found =>
      obtain ⟨literal, next⟩ := found
      obtain ⟨t, more, hkind, hliteral, hreads⟩ := docstring?_reads hdocstring
      obtain ⟨run, rest, hafter, hholds⟩ := statements_holds context next
      have hfirst : tokens.dropLast = t :: (more ++ next.after) := hreads.after_eq
      refine ⟨_, _, run, rest, rfl, ⟨rfl, rfl, fun l hl => ?_, rfl⟩, hholds, ?_⟩
      · cases hl
        exact ⟨t, hfirst ▸ List.mem_cons_self, hkind, hliteral, position_eq hfirst⟩
      · rw [hfirst, hafter]
        exact ⟨t :: more, rest, by simp⟩

end DocLint
