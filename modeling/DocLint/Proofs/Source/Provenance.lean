import DocLint.Proofs.Source.Sites

/-!
# Where declarations come from

The scanner makes up nothing: the name of a declaration and its parameters are runs of the tokens, its
docstring is one of them, and it begins where some token in front of its name does.

* `Span.IsRunOf`: a span that some consecutive tokens take up.
* `Declaration.IsFrom`: a declaration that comes from the tokens.
* `Holds.isFrom`: the declarations that tokens hold come from them.
* `ofTokens_isFrom`: so do all declarations of a file.
-/

namespace DocLint

open Scanner

/-- The span of some consecutive tokens. -/
def Span.IsRunOf (tokens : List Token) (s : Span) : Prop :=
  ∃ run, run <:+: tokens ∧ s = Parameter.itemSpan run

theorem Span.IsRunOf.mono {tokens more : List Token} {s : Span} (h : s.IsRunOf tokens)
    (hmore : tokens <:+: more) : s.IsRunOf more := by
  obtain ⟨run, hrun, hspan⟩ := h
  exact ⟨run, hrun.trans hmore, hspan⟩

theorem Span.isRunOf_token {tokens : List Token} {t : Token} (h : t ∈ tokens) :
    t.span.IsRunOf tokens :=
  ⟨[t], (List.singleton_infix_iff t tokens).2 h, rfl⟩

/-- The tokens from the first one to another behind it take up the span between them. -/
theorem Span.isRunOf_between {rest : List Token} {first last : Token}
    (hlast : last ∈ first :: rest) :
    (Span.mk first.position last.stop).IsRunOf (first :: rest) := by
  obtain ⟨front, behind, hsplit⟩ := List.append_of_mem hlast
  refine ⟨front ++ [last], ⟨[], behind, by simp [hsplit]⟩, ?_⟩
  have hfirst : (front ++ [last]).head? = some first := by
    cases front with
    | nil => exact congrArg List.head? hsplit.symm
    | cons t front => exact congrArg List.head? hsplit.symm
  rw [Parameter.itemSpan, hfirst, List.getLast?_concat]

theorem Parameter.IsItemOf.isRunOf {tokens : List Token} {p : Parameter} (h : p.IsItemOf tokens) :
    p.span.IsRunOf tokens := by
  obtain ⟨item, -, hitem, hspan⟩ := h
  exact ⟨item, hitem, hspan⟩

/-- The declaration is made of tokens, and its name is behind its beginning. -/
structure Declaration.IsFrom (tokens : List Token) (d : Declaration) : Prop where
  anchor : d.anchor.IsRunOf tokens
  front : (Span.mk d.span.start d.anchor.stop).IsRunOf tokens
  parameters : ∀ p ∈ d.parameters, p.span.IsRunOf tokens
  docstring : ∀ literal ∈ d.docstring, literal.IsFrom tokens

theorem Declaration.IsFrom.mono {tokens more : List Token} {d : Declaration} (h : d.IsFrom tokens)
    (hmore : tokens <:+: more) : d.IsFrom more :=
  ⟨h.anchor.mono hmore, h.front.mono hmore, fun p hp => (h.parameters p hp).mono hmore,
    fun literal hliteral => (h.docstring literal hliteral).mono hmore.subset⟩

/-! ### Declarations -/

variable {comments : List Comment} {d : Declaration}

/-- A definition comes from its tokens. -/
theorem Defines.isFrom {s : DefinitionTokens} (h : Defines comments s d) : d.IsFrom s.tokens := by
  obtain ⟨front, hfront⟩ := s.exists_cons
  have htokens := s.tokens_eq
  rw [hfront, List.cons_append] at htokens
  have hname : s.header.name ∈ s.tokens := by simp [htokens]
  have hanchor : d.anchor = s.header.name.span := by rw [Declaration.anchor, h.name_eq]
  refine ⟨hanchor ▸ Span.isRunOf_token hname, ?_, fun p hp => ?_, fun literal hliteral => ?_⟩
  · rw [hanchor, h.start_eq, htokens]
    exact Span.isRunOf_between (htokens ▸ hname)
  · refine ((h.parameters p hp).mono ?_).isRunOf
    split
    · exact s.middle_isInfix
    · exact s.suite_isSuffix.isInfix
  · exact (h.docstring literal hliteral).mono s.suite_isSuffix.subset

/-- A constant comes from its tokens. -/
theorem Assigns.isFrom {s : ConstantTokens} (h : Assigns comments s d) : d.IsFrom s.tokens := by
  have hanchor : d.anchor = s.name.span := by
    rw [Declaration.anchor, Declaration.name?, h.form_eq]
    rfl
  refine ⟨hanchor ▸ Span.isRunOf_token List.mem_cons_self, ?_, ?_, fun literal hliteral => ?_⟩
  · rw [hanchor, h.start_eq]
    exact Span.isRunOf_between List.mem_cons_self
  · simp [Declaration.parameters, DeclarationForm.parameters, h.form_eq]
  · exact (h.docstring literal hliteral).mono fun t ht => by simp [ConstantTokens.tokens, ht]

/-- The declarations that tokens hold come from them. -/
theorem Holds.isFrom {kind : ScopeKind} {run rest : List Token} {ds : List Declaration}
    (h : Holds comments kind run rest ds) : ∀ d ∈ ds, d.IsFrom run := by
  induction h with
  | nothing => simp
  | @append _ run more _ _ _ _ _ ihfirst ihsecond =>
      intro d hd
      rcases List.mem_append.1 hd with hd | hd
      · exact (ihfirst d hd).mono (List.prefix_append run more).isInfix
      · exact (ihsecond d hd).mono (List.suffix_append run more).isInfix
  | function defines => exact List.forall_mem_singleton.2 defines.isFrom
  | @classDef s _ _ _ defines _ _ _ _ ih =>
      exact List.forall_mem_cons.2 ⟨defines.isFrom, fun method hmethod =>
        (ih method hmethod).mono s.suite_isSuffix.isInfix⟩
  | constant assigns => exact List.forall_mem_singleton.2 assigns.isFrom

/-! ### Files -/

namespace ScannedSource

/-- The declarations of a file come from its tokens, the end mark apart; the module begins with the
file. -/
theorem ofTokens_isFrom (context : ScanContext) (tokens : List Token) :
    ∀ d ∈ (ofTokens context tokens).declarations, d.IsFrom tokens.dropLast := by
  obtain ⟨file, ds, run, rest, hdeclarations, hfile, hholds, hrun⟩ := ofTokens_holds context tokens
  rw [hdeclarations]
  refine List.forall_mem_cons.2 ⟨?_, fun d hd => (hholds.isFrom d hd).mono hrun⟩
  -- No tokens at all take up the beginning of the file.
  have hbeginning : (Span.mk {} {}).IsRunOf tokens.dropLast := ⟨[], List.nil_infix, rfl⟩
  have hanchor : file.anchor = ⟨{}, {}⟩ := by
    simp [Declaration.anchor, Declaration.name?, hfile.form_eq, DeclarationForm.name?,
      hfile.span_eq, Span.point]
  refine ⟨hanchor ▸ hbeginning, ?_, ?_, fun literal hliteral => ?_⟩
  · rw [hanchor, hfile.span_eq]
    exact hbeginning
  · simp [Declaration.parameters, hfile.form_eq, DeclarationForm.parameters]
  · obtain ⟨t, ht, hkind, hliteral, -⟩ := hfile.docstring literal hliteral
    exact ⟨t, ht, hkind, hliteral⟩

end ScannedSource

end DocLint
