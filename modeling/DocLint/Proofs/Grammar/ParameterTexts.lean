import DocLint.Proofs.Grammar.Parameters
import DocLint.Proofs.Source.Progress
import DocLint.Proofs.Source.TokenText

/-!
# What a parameter list declares

A parameter is declared by each item of a written list that is no marker.  Its annotation and its
default are what the source text has between the first and the last token of theirs, with all the
blanks, comments and line ends that are written between the tokens.

* `IsTextOf`, `Standing.exists_sourceText`: the source text of a run of tokens.
* `NamedParameter.Declares`: what is declared, said by the item and the source text.
* `parameterList_declares`: what is read from a written list is what it declares.
-/

namespace DocLint

/-! ### Texts of runs -/

/-- The text is what the source text has from the first byte of the tokens to the last. -/
def IsTextOf (source : Bytes) (tokens : List Token) (text : Bytes) : Prop :=
  ∃ first last front behind, tokens.head? = some first ∧ tokens.getLast? = some last ∧
    source = front ++ (text ++ behind) ∧ front.length = first.offset ∧
    front.length + text.length = last.offset + last.text.length ∧
    first.text <+: text ∧ last.text <:+ text

namespace Standing

variable {source : Bytes} {tokens : List Token}

/-- No token of a run stands in front of its first one or behind its last one. -/
theorem first_le_last (h : Standing source tokens) {first last : Token}
    (hfirst : tokens.head? = some first) (hlast : tokens.getLast? = some last) :
    first.offset ≤ last.offset ∧
      first.offset + first.text.length ≤ last.offset + last.text.length := by
  obtain ⟨rest, rfl⟩ := List.head?_eq_some_iff.1 hfirst
  rcases List.mem_cons.1 (List.mem_of_getLast? hlast) with rfl | hmem
  · exact ⟨Nat.le_refl _, Nat.le_refl _⟩
  · have hstop := h.uncons.stop_le (List.mem_singleton_self first) hmem
    exact ⟨by omega, by omega⟩

/-- Written tokens that follow each other have a source text. -/
theorem exists_sourceText (h : Standing source tokens) (hne : tokens ≠ [])
    (hwritten : ∀ t ∈ tokens, t.text ≠ []) :
    ∃ text, sourceText? source tokens = some text ∧ IsTextOf source tokens text := by
  obtain ⟨first, others, rfl⟩ := List.exists_cons_of_ne_nil hne
  obtain ⟨last, hlast⟩ := Option.isSome_iff_exists.1 (List.getLast?_isSome.2 hne)
  obtain ⟨hoffset, hstop⟩ := h.first_le_last rfl hlast
  obtain ⟨front, below, hfront, -, hfirst⟩ := h.stands first List.mem_cons_self
  obtain ⟨above, behind, hbehind, -, habove⟩ := h.stands last (List.mem_of_getLast? hlast)
  have hend : last.offset + last.text.length = (above ++ last.text).length := by
    rw [List.length_append, habove]
  have hdrop : source.drop first.offset = first.text ++ below := by
    rw [hfront, hfirst, List.drop_left]
  have htake : source.take (last.offset + last.text.length) = above ++ last.text := by
    rw [hbehind, hend, ← List.append_assoc, List.take_left]
  generalize hcount : last.offset + last.text.length - first.offset = n
  have hn : last.offset + last.text.length = first.offset + n := by omega
  -- The text between the two ends lies in what is behind the one and in front of the other.
  have hsplit : source.take first.offset ++ (source.drop first.offset).take n = above ++ last.text := by
    rw [← List.take_add, ← hn, htake]
  have hstart : source.take first.offset = front := by
    rw [hfront, hfirst, List.take_left]
  have hlength : front.length + ((source.drop first.offset).take n).length =
      last.offset + last.text.length := by
    rw [hend, ← hsplit, hstart, List.length_append]
  refine ⟨(source.drop first.offset).take n, ?_, first, last, front, behind, rfl, hlast, ?_,
    hfirst.symm, hlength, ?_, ?_⟩
  · have hbytes : last.text.isEmpty = false :=
      List.isEmpty_eq_false_iff.2 (hwritten last (List.mem_of_getLast? hlast))
    simp only [sourceText?, List.head?_cons, hlast, hcount, hbytes, Bool.false_eq_true, if_false]
  · rw [← List.append_assoc, ← hstart, hsplit, List.append_assoc, ← hbehind]
  · have hprefix : first.text <+: source.drop first.offset := ⟨below, hdrop.symm⟩
    exact List.prefix_of_prefix_length_le hprefix (List.take_prefix n _) (by omega)
  · rw [hstart] at hsplit
    refine List.suffix_of_suffix_length_le (List.suffix_append above last.text) ?_ (by omega)
    exact ⟨front, hsplit⟩

end Standing

/-! ### Parameters -/

namespace Clause

variable {sign : TokenKind} {allowed : TokenKind → Bool}

/-- A text is declared if and only if the clause is written, and then it is the text of its run. -/
def Declares (source : Bytes) : Option (Clause sign allowed) → Option Bytes → Prop :=
  Option.Rel fun clause text => IsTextOf source clause.run.tokens text

theorem declares_text? {source : Bytes} {clause? : Option (Clause sign allowed)}
    (h : ∀ clause ∈ clause?, Standing source clause.run.tokens) :
    Declares source clause? (clause?.bind (Clause.text? source)) := by
  cases clause? with
  | none => exact .none
  | some clause =>
      obtain ⟨text, htext, hcovers⟩ := (h clause rfl).exists_sourceText clause.run_ne_nil
        fun t ht => Token.text_ne_nil_of_isPlain (clause.run.plain t ht)
      rw [Option.bind_some, Clause.text?, htext]
      exact .some hcovers

end Clause

namespace NamedParameter

/-- What a written parameter declares. -/
structure Declares (source : Bytes) (p : NamedParameter) (declared : Parameter) : Prop where
  name : declared.name = p.name.token.text
  kind : declared.kind = p.stars.kind
  declaredType : Clause.Declares source p.typeClause declared.declaredType
  defaultValue : Clause.Declares source p.defaultClause declared.defaultValue
  span : ∃ first last, p.tokens.head? = some first ∧ p.tokens.getLast? = some last ∧
    declared.span = ⟨first.position, last.stop⟩

variable (p : NamedParameter)

theorem declares_parameter {source : Bytes} (h : Standing source p.tokens) :
    p.Declares source (p.parameter source) := by
  have hannotation : p.annotationTokens.Sublist p.tokens :=
    ((List.sublist_append_left _ _).cons _).trans (List.sublist_append_right _ _)
  have hdefault : p.defaultTokens.Sublist p.tokens :=
    ((List.sublist_append_right _ _).cons _).trans (List.sublist_append_right _ _)
  have hne : p.tokens ≠ [] := List.append_ne_nil_of_right_ne_nil _ (List.cons_ne_nil _ _)
  refine ⟨rfl, rfl, Clause.declares_text? fun clause hclause => ?_,
    Clause.declares_text? fun clause hclause => ?_, ?_⟩
  · rw [annotationTokens, Option.mem_def.1 hclause] at hannotation
    exact (h.sublist hannotation).tail
  · rw [defaultTokens, Option.mem_def.1 hclause] at hdefault
    exact (h.sublist hdefault).tail
  · obtain ⟨first, hfirst⟩ := Option.isSome_iff_exists.1 (List.isSome_head?.2 hne)
    obtain ⟨last, hlast⟩ := Option.isSome_iff_exists.1 (List.getLast?_isSome.2 hne)
    refine ⟨first, last, hfirst, hlast, ?_⟩
    simp only [parameter, Parameter.itemSpan, hfirst, hlast]

end NamedParameter

namespace ParameterItem

/-- The parameter among the items; the markers are none. -/
def named? : ParameterItem → Option NamedParameter
  | star _ => none
  | slash _ => none
  | named p => some p

end ParameterItem

namespace ParameterList

/-- The items that declare a parameter. -/
def named (list : ParameterList) : List NamedParameter := list.items.filterMap ParameterItem.named?

variable (list : ParameterList)

theorem parameters_eq_map_named (source : Bytes) :
    list.parameters source = list.named.map (NamedParameter.parameter source) := by
  rw [parameters, named, List.map_filterMap]
  congr 1
  funext item
  cases item <;> rfl

theorem tokens_sublist : ∀ item ∈ list.items, item.tokens.Sublist list.tokens := by
  induction list with
  | nil => exact fun _ hother => absurd hother List.not_mem_nil
  | last item =>
      intro other hother
      rw [List.mem_singleton.1 hother]
      exact List.Sublist.refl _
  | cons item comma rest ih =>
      intro other hother
      rcases List.mem_cons.1 hother with rfl | hother
      · exact List.sublist_append_left _ _
      · exact ((ih other hother).cons _).trans (List.sublist_append_right _ _)

theorem named_sublist {p : NamedParameter} (h : p ∈ list.named) :
    p.tokens.Sublist list.tokens := by
  obtain ⟨item, hitem, hp⟩ := List.mem_filterMap.1 h
  cases item with
  | star sign => cases hp
  | slash sign => cases hp
  | named q =>
      obtain rfl := Option.some.inj hp
      exact list.tokens_sublist _ hitem

/-- Each item that is no marker declares its parameter. -/
theorem declares_parameters {source : Bytes} (h : Standing source list.tokens) :
    List.Forall₂ (NamedParameter.Declares source) list.named (list.parameters source) := by
  rw [list.parameters_eq_map_named, List.forall₂_map_right_iff, List.forall₂_same]
  intro p hp
  exact p.declares_parameter (h.sublist (list.named_sublist hp))

end ParameterList

/-- What is ahead at a place of a file stands in its source text. -/
theorem TokenCursor.LeadsTo.standing {source : Bytes} {c : TokenCursor}
    (h : (TokenCursor.ofTokens (LexedSource.ofSource source).tokens).LeadsTo c) :
    Standing source c.after := by
  obtain ⟨run, hreads⟩ := h
  have hfile := (LexedSource.ofSource_standing source).sublist (List.dropLast_sublist _)
  have hall : (LexedSource.ofSource source).tokens.dropLast = run ++ c.after := hreads.after_eq
  rw [hall] at hfile
  exact hfile.right

/-- At any place of a file, a written parameter list is read through its closing parenthesis without a
fault, and the parameters that it declares are those of its items that are no markers, in their
order. -/
theorem parameterList_declares {source : Bytes} {c : TokenCursor} {rest : List Token}
    (list : ParameterList) (close : Sign .rightParen)
    (hplace : (TokenCursor.ofTokens (LexedSource.ofSource source).tokens).LeadsTo c)
    (h : c.after = list.tokens ++ close.token :: rest) :
    ∃ parameters behind, Scanner.parameterList source c = (parameters, [], behind) ∧
      behind = c.skip (list.tokens.length + 1) ∧ behind.after = rest ∧
      List.Forall₂ (NamedParameter.Declares source) list.named parameters := by
  have hstanding : Standing source list.tokens := by
    have hahead := hplace.standing
    rw [h] at hahead
    exact hahead.left
  have hpast : c.past (list.tokens ++ [close.token]) = c.skip (list.tokens.length + 1) := by
    rw [TokenCursor.past, List.length_append, List.length_singleton]
  have hbehind : (c.past (list.tokens ++ [close.token])).after = rest :=
    TokenCursor.after_past (by rw [h, List.append_assoc, List.singleton_append])
  refine ⟨_, _, parameterList_tokens source list close h, hpast, hbehind, ?_⟩
  exact list.declares_parameters hstanding

/-- A token on the first line of a source text. -/
def Token.onFirstLine (kind : TokenKind) (text : Bytes) (offset : Nat) : Token :=
  ⟨kind, text, ⟨1, UInt32.ofNat (offset + 1)⟩, offset⟩

/-- A header with brackets in an annotation and in a default, and a comma behind the last item. -/
def starredHeader : Bytes := ascii "def f(*a: [x] = (b, c), /, **k,): pass\n"

/-- The parameter list of `starredHeader`. -/
def starredList : ParameterList :=
  .cons (.named {
      stars := .one ⟨⟨.onFirstLine .star (ascii "*") 6, rfl⟩, by decide⟩
      name := ⟨⟨.onFirstLine .identifier (ascii "a") 7, rfl⟩, by decide⟩
      typeClause := some ⟨⟨⟨.onFirstLine .colon (ascii ":") 8, rfl⟩, by decide⟩,
        ⟨[.onFirstLine .leftBracket (ascii "[") 10, .onFirstLine .identifier (ascii "x") 11,
          .onFirstLine .rightBracket (ascii "]") 12], by decide, by decide⟩, by decide⟩
      defaultClause := some ⟨⟨⟨.onFirstLine .assign (ascii "=") 14, rfl⟩, by decide⟩,
        ⟨[.onFirstLine .leftParen (ascii "(") 16, .onFirstLine .identifier (ascii "b") 17,
          .onFirstLine .comma (ascii ",") 18, .onFirstLine .identifier (ascii "c") 20,
          .onFirstLine .rightParen (ascii ")") 21], by decide, by decide⟩, by decide⟩ })
    ⟨⟨.onFirstLine .comma (ascii ",") 22, rfl⟩, by decide⟩
  (.cons (.slash ⟨⟨.onFirstLine .slash (ascii "/") 24, rfl⟩, by decide⟩)
    ⟨⟨.onFirstLine .comma (ascii ",") 25, rfl⟩, by decide⟩
  (.cons (.named {
      stars := .two ⟨⟨.onFirstLine .doubleStar (ascii "**") 27, rfl⟩, by decide⟩
      name := ⟨⟨.onFirstLine .identifier (ascii "k") 29, rfl⟩, by decide⟩
      typeClause := none
      defaultClause := none })
    ⟨⟨.onFirstLine .comma (ascii ",") 30, rfl⟩, by decide⟩ .nil))

def starredClose : Sign .rightParen := ⟨⟨.onFirstLine .rightParen (ascii ")") 31, rfl⟩, by decide⟩

/-- The place behind the opening parenthesis of `starredHeader`. -/
def starredCursor : TokenCursor :=
  (TokenCursor.ofTokens (LexedSource.ofSource starredHeader).tokens).skip 3

theorem parameterList_declares_starredList :
    ((TokenCursor.ofTokens (LexedSource.ofSource starredHeader).tokens).LeadsTo starredCursor ∧
      starredCursor.after = starredList.tokens ++ starredClose.token :: starredCursor.after.drop 19) ∧
    ∃ parameters behind,
      Scanner.parameterList starredHeader starredCursor = (parameters, [], behind) ∧
        behind = starredCursor.skip (starredList.tokens.length + 1) ∧
        behind.after = starredCursor.after.drop 19 ∧
        List.Forall₂ (NamedParameter.Declares starredHeader) starredList.named parameters := by
  have hplace : (TokenCursor.ofTokens (LexedSource.ofSource starredHeader).tokens).LeadsTo
      starredCursor := TokenCursor.leadsTo_skip _ 3
  have hafter : starredCursor.after =
      starredList.tokens ++ starredClose.token :: starredCursor.after.drop 19 := by
    cbv
  exact ⟨⟨hplace, hafter⟩, parameterList_declares starredList starredClose hplace hafter⟩

end DocLint
