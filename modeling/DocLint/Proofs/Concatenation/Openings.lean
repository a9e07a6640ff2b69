import DocLint.Proofs.Concatenation.Embedding

/-!
# How statements begin and end, inside another file

What stands in front of a statement, and where a statement on one line ends, is read in the same way
in a file and in another one that the file stands in.

* `docstring?_embed`, `AtStart.docstring?`, `OnLine.docstring?`: a docstring statement.
* `AtStart.decorators`, `AtStart.skipAsync`: what stands in front of a definition.
* `OnLine.statementTokens`, `OnLine.behindStatement`: the tokens of a statement and the place behind
  it.
-/

namespace DocLint

open TokenKind Scanner TokenCursor

/-! ### Docstring statements -/

namespace Scanner

variable {c : TokenCursor} {t : Token} {rest : List Token}

theorem docstring?_nil (h : c.after = []) : docstring? c = none := by
  rw [docstring?, h]

theorem docstring?_cons (h : c.after = t :: rest) :
    docstring? c =
      if t.kind == .string &&
          (c.kindAt 1 == .newline || c.kindAt 1 == .semicolon || c.kindAt 1 == .eof) &&
          !isExpressionLiteral t.text then
        some (.ofText t.text t.position, (c.advance.skipIf .semicolon).skipIf .newline)
      else none := by
  rw [docstring?, h]

/-- A docstring statement is a string and what may stand behind it. -/
theorem exists_of_docstring? {literal : DocLiteral} {d : TokenCursor}
    (h : docstring? c = some (literal, d)) :
    d = (c.advance.skipIf .semicolon).skipIf .newline ∧ ∃ t rest, c.after = t :: rest ∧
      t.kind = .string ∧ literal = .ofText t.text t.position ∧
      (c.kindAt 1 = .newline ∨ c.kindAt 1 = .semicolon ∨ c.kindAt 1 = .eof) := by
  cases hafter : c.after with
  | nil =>
      rw [docstring?_nil hafter] at h
      cases h
  | cons t rest =>
      rw [docstring?_cons hafter] at h
      split at h
      next hstring =>
        cases h
        simp only [Bool.and_eq_true, Bool.or_eq_true, beq_iff_eq] at hstring
        exact ⟨rfl, t, rest, rfl, hstring.1.1, rfl, or_assoc.1 hstring.1.2⟩
      · cases h

/-! ### In front of a definition -/

/-- The name that a line of decorators begins with. -/
def decoratorName : List Token → List Bytes
  | [] => []
  | t :: _ => if t.kind = .identifier then [t.text] else []

theorem decorators_of_isAt (h : c.isAt .atSign = true) :
    decorators c = (decoratorName c.advance.after ++ (decorators c.advance.skipLine).1,
      (decorators c.advance.skipLine).2) := by
  rw [decorators, if_pos h]
  rfl

/-- A line does not go over the end of the tokens. -/
theorem lineLength_le (tokens : List Token) : lineLength tokens ≤ tokens.length := by
  induction tokens with
  | nil => exact Nat.le_refl _
  | cons t rest ih =>
      rw [lineLength, List.length_cons]
      split
      · exact Nat.le_add_left 1 _
      · exact Nat.succ_le_succ ih

/-! ### Simple statements -/

theorem take_statementTokens (c : TokenCursor) :
    c.after.take (statementTokens c).length = statementTokens c :=
  (List.prefix_iff_eq_take.1 (List.takeWhile_prefix _)).symm

/-- The tokens of a statement are in front of its end. -/
theorem before_statementEnd (c : TokenCursor) :
    (statementEnd c).before = (statementTokens c).reverse ++ c.before := by
  rw [statementEnd, skip, take_statementTokens]

/-- A statement has tokens of its own, or is the end of a line. -/
theorem length_behindStatement_lt (hne : c.after ≠ []) :
    ((statementEnd c).skipIf .newline).length < c.length := by
  obtain ⟨t, rest, hafter⟩ := List.exists_cons_of_ne_nil hne
  have hle := length_skipIf_le (statementEnd c) .newline
  by_cases hkind : t.kind = .newline
  · have hend : statementEnd c = c := by
      rw [statementEnd, statementTokens, hafter, List.takeWhile_cons_of_neg (by simp [hkind])]
      rfl
    rw [hend, skipIf_of_isAt (by rw [isAt_eq hafter, hkind]; rfl), length_advance]
    exact Nat.sub_lt (length_pos_of_cons hafter) Nat.one_pos
  · refine Nat.lt_of_le_of_lt hle ?_
    rw [statementEnd, statementTokens, hafter, List.takeWhile_cons_of_pos (by simpa using hkind),
      List.length_cons, length_skip]
    exact Nat.sub_lt (length_pos_of_cons hafter) (Nat.succ_pos _)

end Scanner

namespace Embedding

variable {context context' : ScanContext} {tokens : List Token}
  {e : Embedding context context' tokens} {nest : Nat} {c c' : TokenCursor} {t : Token}
  {rest : List Token} {literal : DocLiteral} {d : TokenCursor}

/-- A docstring statement whose end is in the file. -/
theorem docstring?_embed (h : e.Embeds c c') (hafter : c.after = t :: rest)
    (hrest : e.behind ≠ [] → t.kind = .string → rest ≠ []) :
    docstring? c' = (docstring? c).map fun found =>
      (found.1.lower e.lines, (c'.advance.skipIf .semicolon).skipIf .newline) := by
  rw [docstring?_cons (h.after_cons hafter), docstring?_cons hafter, e.kind_move, e.text_move]
  by_cases hkind : t.kind = .string
  · have hat : c'.kindAt 1 = c.kindAt 1 := h.kindAt_eq fun hbehind => by
      rw [length, hafter, List.length_cons]
      exact Nat.succ_lt_succ (List.length_pos_iff.2 (hrest hbehind hkind))
    rw [hat, e.move_eq t fun _ => by rw [hkind]; decide]
    split
    · exact congrArg some (Prod.ext (DocLiteral.ofText_lower e.lines t.text t.position) rfl)
    · rfl
  · simp [hkind]

/-- Where the file ends there is no docstring in the other one, either. -/
theorem docstring?_embed_nil (h : e.Embeds c c') (hafter : c.after = []) : docstring? c' = none := by
  have hafter' : c'.after = e.behind := by rw [h.after_eq, hafter]; rfl
  cases hbehind : e.behind with
  | nil => exact docstring?_nil (hafter'.trans hbehind)
  | cons u more =>
      rw [docstring?_cons (hafter'.trans hbehind), if_neg]
      have hhead := e.behind_head u (by rw [hbehind]; rfl)
      intro hstring
      simp only [Bool.and_eq_true, beq_iff_eq] at hstring
      rw [hstring.1.1] at hhead
      cases hhead

/-- Where no docstring is, there is none in the other file, either. -/
theorem docstring?_embed_none (h : e.Embeds c c')
    (hrest : ∀ t rest, c.after = t :: rest → e.behind ≠ [] → t.kind = .string → rest ≠ [])
    (hnone : docstring? c = none) : docstring? c' = none := by
  cases hafter : c.after with
  | nil => exact docstring?_embed_nil h hafter
  | cons t rest =>
      rw [docstring?_embed h hafter (hrest t rest hafter), hnone]
      rfl

theorem docstring?_along (h : e.Embeds c c') (hafter : c.after = t :: rest) :
    Along c c' ((c.advance.skipIf .semicolon).skipIf .newline)
      ((c'.advance.skipIf .semicolon).skipIf .newline) := by
  have hadvance : Along c c' c.advance c'.advance := .skip c' (length_pos_of_cons hafter)
  have hsemicolon := hadvance.trans
    ((h.along hadvance).skipIf_along (show TokenKind.semicolon ≠ .eof by decide) rfl)
  exact hsemicolon.trans ((h.along hsemicolon).skipIf_along (by decide) rfl)

namespace OnLine

theorem rest_ne_nil (h : e.OnLine nest c c') (hafter : c.after = t :: rest)
    (ht : t.kind ≠ .newline) (hbehind : e.behind ≠ []) : rest ≠ [] := by
  have hne := (h.advance hafter ht).ne_nil hbehind
  rwa [after_advance hafter] at hne

theorem docstring?_none (h : e.OnLine nest c c') (hnone : docstring? c = none) :
    docstring? c' = none :=
  docstring?_embed_none h.toEmbeds (fun _ _ hafter hbehind hkind =>
    h.rest_ne_nil hafter (by rw [hkind]; decide) hbehind) hnone

/-- A docstring in a line ends the line, or is in front of the rest of it. -/
theorem docstring? (h : e.OnLine nest c c') (hsome : docstring? c = some (literal, d)) :
    ∃ d', Scanner.docstring? c' = some (literal.lower e.lines, d') ∧ Along c c' d d' ∧
      ∃ last more, d.before = last :: more ∧
        ((last.kind = .newline ∧ e.AtStart nest d d') ∨
          (last.kind ≠ .newline ∧ e.OnLine nest d d')) := by
  obtain ⟨rfl, t, rest, hafter, hkind, -, -⟩ := exists_of_docstring? hsome
  have hnewline : t.kind ≠ .newline := by rw [hkind]; decide
  have hdocstring := docstring?_embed h.toEmbeds hafter fun hbehind _ =>
    h.rest_ne_nil hafter hnewline hbehind
  rw [hsome] at hdocstring
  refine ⟨_, hdocstring, docstring?_along h.toEmbeds hafter, ?_⟩
  -- Behind the semicolon the line still goes on.
  have hline : e.OnLine nest (c.advance.skipIf .semicolon) (c'.advance.skipIf .semicolon) ∧
      ∃ last more, (c.advance.skipIf .semicolon).before = last :: more ∧ last.kind ≠ .newline := by
    have hadvance := h.advance hafter hnewline
    have hiff := hadvance.isAt_eq .semicolon
    cases hat : c.advance.isAt .semicolon with
    | true =>
      obtain ⟨u, more, hu, hsemicolon⟩ := exists_cons_of_isAt hat (by decide)
      have hne : u.kind ≠ .newline := by rw [hsemicolon]; decide
      rw [skipIf_of_isAt hat, skipIf_of_isAt (hiff.trans hat)]
      exact ⟨hadvance.advance hu hne, u, _, before_advance hu, hne⟩
    | false =>
      rw [skipIf_of_ne hat, skipIf_of_ne (hiff.trans hat)]
      exact ⟨hadvance, t, _, before_advance hafter, hnewline⟩
  obtain ⟨hline, last, more, hbefore, hlast⟩ := hline
  have hiff := hline.isAt_eq .newline
  cases hat : (c.advance.skipIf .semicolon).isAt .newline with
  | true =>
      obtain ⟨u, behind, hu, hnewline⟩ := exists_cons_of_isAt hat (by decide)
      rw [skipIf_of_isAt hat, skipIf_of_isAt (hiff.trans hat)]
      exact ⟨u, _, before_advance hu, .inl ⟨hnewline, hline.behind_newline hu hnewline⟩⟩
  | false =>
      rw [skipIf_of_ne hat, skipIf_of_ne (hiff.trans hat)]
      exact ⟨last, more, hbefore, .inr ⟨hlast, hline⟩⟩

end OnLine

namespace AtStart

/-- Behind a string at the beginning of a statement there is something on its line. -/
theorem rest_ne_nil (h : e.AtStart nest c c') (hafter : c.after = t :: rest)
    (ht : t.kind = .string) (hbehind : e.behind ≠ []) : rest ≠ [] :=
  (h.onLine hafter (by rw [ht]; rfl)).rest_ne_nil hafter (by rw [ht]; decide) hbehind

theorem docstring?_none (h : e.AtStart nest c c') (hnone : docstring? c = none) :
    docstring? c' = none :=
  docstring?_embed_none h.toEmbeds (fun _ _ hafter hbehind hkind =>
    h.rest_ne_nil hafter hkind hbehind) hnone

/-- The end of a line may stand between two statements. -/
theorem skipIf_newline (h : e.AtStart nest c c') :
    e.AtStart nest (c.skipIf .newline) (c'.skipIf .newline) := by
  have hiff : c'.isAt .newline = c.isAt .newline := h.toEmbeds.isAt_plain (by decide) rfl
  cases hat : c.isAt .newline with
  | true =>
      obtain ⟨t, rest, hafter, hkind⟩ := exists_cons_of_isAt hat (by decide)
      rw [skipIf_of_isAt hat, skipIf_of_isAt (hiff.trans hat)]
      exact h.advance hafter fun _ hbegins => hbegins.behind_newline hkind
  | false => rwa [skipIf_of_ne hat, skipIf_of_ne (hiff.trans hat)]

/-- Behind a docstring another statement may begin. -/
theorem docstring? (h : e.AtStart nest c c') (hsome : docstring? c = some (literal, d)) :
    ∃ d', Scanner.docstring? c' = some (literal.lower e.lines, d') ∧ Along c c' d d' ∧
      e.AtStart nest d d' := by
  obtain ⟨rfl, t, rest, hafter, hkind, -, hends⟩ := exists_of_docstring? hsome
  have hdocstring := docstring?_embed h.toEmbeds hafter fun hbehind hkind =>
    h.rest_ne_nil hafter hkind hbehind
  rw [hsome] at hdocstring
  refine ⟨_, hdocstring, docstring?_along h.toEmbeds hafter, ?_⟩
  have hadvance := after_advance hafter
  have hline := (h.onLine hafter (by rw [hkind]; rfl)).advance hafter (by rw [hkind]; decide)
  cases hrest : rest with
  | nil =>
      -- Nothing is behind the file, either.
      refine ⟨h.toEmbeds.along (docstring?_along h.toEmbeds hafter), fun hbehind => ?_⟩
      exact absurd hrest (h.rest_ne_nil hafter hkind hbehind)
  | cons u more =>
      have hu : c.advance.after = u :: more := hadvance.trans hrest
      have hends' : u.kind = .newline ∨ u.kind = .semicolon ∨ u.kind = .eof := by
        have hat : c.kindAt 1 = u.kind := by
          rw [kindAt, hafter, hrest]
          rfl
        rwa [hat] at hends
      have hiff := hline.isAt_eq .semicolon
      rcases hends' with hnewline | hsemicolon | heof
      · have hat : c.advance.isAt .semicolon = false := by
          rw [TokenCursor.isAt_eq hu, hnewline]
          rfl
        have hend : c.advance.isAt .newline = true := by
          rw [TokenCursor.isAt_eq hu, hnewline]
          rfl
        rw [skipIf_of_ne hat, skipIf_of_ne (hiff.trans hat), skipIf_of_isAt hend,
          skipIf_of_isAt ((hline.isAt_eq _).trans hend)]
        exact hline.behind_newline hu hnewline
      · have hat : c.advance.isAt .semicolon = true := by
          rw [TokenCursor.isAt_eq hu, hsemicolon]
          rfl
        refine AtStart.skipIf_newline ?_
        rw [skipIf_of_isAt hat, skipIf_of_isAt (hiff.trans hat)]
        refine ⟨(hline.advance hu (by rw [hsemicolon]; decide)).toEmbeds, fun hbehind => ?_⟩
        have hbegins := h.begins hbehind
        rw [hafter, hrest] at hbegins
        rw [after_advance hu]
        exact hbegins.behind_semicolon hkind hsemicolon
      · refine ⟨h.toEmbeds.along (docstring?_along h.toEmbeds hafter), fun hbehind => ?_⟩
        obtain ⟨blocks, lineOpen, -, harranged⟩ := (h.begins hbehind).arranged
        rw [hafter, hrest, kindsAhead, List.map_cons, hkind, List.map_cons, heof] at harranged
        cases (harranged.behind_written rfl) with
        | written hwritten _ => cases hwritten

end AtStart

/-! ### In front of a definition -/

namespace AtStart

/-- The rest of a line of decorators. -/
theorem skipLine (h : e.AtStart nest c c') (hafter : c.after = t :: rest) (ht : t.kind = .atSign) :
    Along c c' c.advance.skipLine c'.advance.skipLine ∧
      e.AtStart nest c.advance.skipLine c'.advance.skipLine ∧
      (e.behind ≠ [] → Within nest c.advance.skipLine.after) := by
  have hline := (h.onLine hafter (by rw [ht]; rfl)).advance hafter (by rw [ht]; decide)
  have hlength : lineLength c'.advance.after = lineLength c.advance.after := by
    rw [hline.after_eq]
    exact lineLength_embed fun hbehind => (hline.within hbehind).newline_mem
  have hadvance : Along c c' c.advance c'.advance := .skip c' (length_pos_of_cons hafter)
  have halong : Along c.advance c'.advance c.advance.skipLine c'.advance.skipLine := by
    rw [TokenCursor.skipLine, TokenCursor.skipLine, hlength]
    exact .skip _ (lineLength_le _)
  have hdecorated (hbehind : e.behind ≠ []) : Begins nest c.advance.skipLine.after ∧
      Within nest c.advance.skipLine.after := by
    have hbegins := h.begins hbehind
    rw [hafter] at hbegins
    rw [TokenCursor.skipLine, after_skip, after_advance hafter]
    exact hbegins.decorated ht
  exact ⟨hadvance.trans halong, ⟨hline.toEmbeds.along halong, fun hbehind => (hdecorated hbehind).1⟩,
    fun hbehind => (hdecorated hbehind).2⟩

/-- Behind the decorators there is a statement on the line. -/
theorem decorators (h : e.AtStart nest c c') (hne : e.behind ≠ [] → c.after ≠ []) :
    ∃ d', Scanner.decorators c' = ((Scanner.decorators c).1, d') ∧
      Along c c' (Scanner.decorators c).2 d' ∧ e.AtStart nest (Scanner.decorators c).2 d' ∧
      ((Scanner.decorators c).2 = c ∨
        (e.behind ≠ [] → Within nest (Scanner.decorators c).2.after)) := by
  induction c using Scanner.decorators.induct generalizing c'
  case case1 c hat here ih =>
    obtain ⟨t, rest, hafter, hkind⟩ := exists_cons_of_isAt hat (by decide)
    obtain ⟨hskip, hstart, hwithin⟩ := h.skipLine hafter hkind
    obtain ⟨d', hd', halong, hbehind, hline⟩ := ih hstart fun hne => (hwithin hne).ne_nil
    have hat' : c'.isAt .atSign = true := (h.toEmbeds.isAt_eq hne .atSign).trans hat
    have hname : decoratorName c'.advance.after = decoratorName c.advance.after := by
      have hadvance := (h.onLine hafter (by rw [hkind]; rfl)).advance hafter (by rw [hkind]; decide)
      cases hahead : c.advance.after with
      | nil =>
          have hnil : e.behind = [] := by
            by_contra hne
            exact hadvance.ne_nil hne hahead
          rw [hadvance.after_eq, hahead, hnil]
          rfl
      | cons u more =>
          rw [hadvance.after_cons hahead]
          rw [decoratorName, decoratorName, e.kind_move, e.text_move]
    rw [decorators_of_isAt hat', decorators_of_isAt hat, hname, hd']
    refine ⟨d', rfl, hskip.trans halong, hbehind, .inr ?_⟩
    rcases hline with hline | hline
    · rw [hline]
      exact hwithin
    · exact hline
  case case2 c hat =>
    have hat' : ¬ c'.isAt .atSign = true := by rwa [h.toEmbeds.isAt_eq hne]
    rw [Scanner.decorators, if_neg hat', Scanner.decorators.eq_1 c, if_neg hat]
    exact ⟨c', rfl, .refl c c', h, .inl rfl⟩

/-- The word in front of `def`. -/
theorem skipAsync (h : e.AtStart nest c c') (hne : e.behind ≠ [] → c.after ≠ []) :
    Along c c' (Scanner.skipAsync c) (Scanner.skipAsync c') ∧
      e.AtStart nest (Scanner.skipAsync c) (Scanner.skipAsync c') ∧
      (Scanner.skipAsync c = c ∨ (Scanner.skipAsync c).isAt (.keyword .kDef) = true) := by
  have hiff : (c'.isAt (.keyword .kAsync) && c'.kindAt 1 == .keyword .kDef) =
      (c.isAt (.keyword .kAsync) && c.kindAt 1 == .keyword .kDef) := by
    rw [h.toEmbeds.isAt_eq hne]
    cases hat : c.isAt (.keyword .kAsync) with
    | false => rfl
    | true =>
        obtain ⟨t, rest, hafter, hkind⟩ := exists_cons_of_isAt hat (by decide)
        have hline := h.onLine hafter (by rw [hkind]; rfl)
        rw [h.toEmbeds.kindAt_eq fun hbehind => ?_]
        have hrest := hline.rest_ne_nil hafter (by rw [hkind]; decide) hbehind
        rw [length, hafter, List.length_cons]
        exact Nat.succ_lt_succ (List.length_pos_iff.2 hrest)
  rw [Scanner.skipAsync, Scanner.skipAsync, hiff]
  split
  next hasync =>
    rw [Bool.and_eq_true, beq_iff_eq] at hasync
    obtain ⟨t, rest, hafter, hkind⟩ := exists_cons_of_isAt hasync.1 (by decide)
    cases rest with
    | nil =>
        rw [kindAt, hafter] at hasync
        cases hasync.2
    | cons u more =>
        have hdef : u.kind = .keyword .kDef := by
          have hat := hasync.2
          rw [kindAt, hafter] at hat
          exact hat
        refine ⟨.skip c' (length_pos_of_cons hafter),
          h.advance hafter fun _ hbegins => hbegins.behind_async hkind hdef, .inr ?_⟩
        rw [TokenCursor.isAt_eq (after_advance hafter), hdef]
        rfl
  · exact ⟨.refl c c', h, .inl rfl⟩

end AtStart

/-! ### Simple statements -/

namespace OnLine

theorem statementTokens (h : e.OnLine nest c c') :
    Scanner.statementTokens c' = (Scanner.statementTokens c).map e.move := by
  rw [Scanner.statementTokens, h.after_eq]
  exact takeWhile_embed fun hbehind => (h.within hbehind).newline_mem

/-- Up to the end of the line. -/
theorem statementEnd (h : e.OnLine nest c c') :
    Along c c' (Scanner.statementEnd c) (Scanner.statementEnd c') ∧
      e.OnLine nest (Scanner.statementEnd c) (Scanner.statementEnd c') := by
  have hle : (Scanner.statementTokens c).length ≤ c.length := (List.takeWhile_prefix _).length_le
  have htake := take_statementTokens c
  rw [Scanner.statementEnd, Scanner.statementEnd, h.statementTokens, List.length_map]
  refine ⟨.skip c' hle, h.skip hle fun _ t ht => ?_⟩
  rw [htake] at ht
  simpa using List.mem_takeWhile_imp ht

/-- The line goes on up to its end. -/
theorem after_statementEnd (hafter : (Scanner.statementEnd c).after = t :: rest) :
    t.kind = .newline := by
  have hsplit : Scanner.statementTokens c ++ c.after.dropWhile (fun t => t.kind != .newline) =
      c.after := List.takeWhile_append_dropWhile
  have hdrop : (Scanner.statementEnd c).after = c.after.dropWhile fun t => t.kind != .newline := by
    rw [Scanner.statementEnd, after_skip]
    nth_rewrite 1 [← hsplit]
    exact List.drop_left
  have hhead := List.head?_dropWhile_not (fun t : Token => t.kind != .newline) c.after
  rw [← hdrop, hafter] at hhead
  simpa using hhead

/-- Behind a simple statement another one may begin. -/
theorem behindStatement (h : e.OnLine nest c c') :
    Along c c' ((Scanner.statementEnd c).skipIf .newline)
        ((Scanner.statementEnd c').skipIf .newline) ∧
      e.AtStart nest ((Scanner.statementEnd c).skipIf .newline)
        ((Scanner.statementEnd c').skipIf .newline) := by
  obtain ⟨halong, hline⟩ := h.statementEnd
  refine ⟨halong.trans (hline.skipIf_along (by decide) rfl), ?_⟩
  cases hafter : (Scanner.statementEnd c).after with
  | nil =>
      have hbehind : e.behind = [] := by
        by_contra hne
        exact hline.ne_nil hne hafter
      exact ⟨hline.toEmbeds.along (hline.skipIf_along (by decide) rfl),
        fun hne => absurd hbehind hne⟩
  | cons t rest =>
      have hkind := after_statementEnd hafter
      have hat : (Scanner.statementEnd c).isAt .newline = true := by
        rw [TokenCursor.isAt_eq hafter, hkind]
        rfl
      rw [skipIf_of_isAt hat, skipIf_of_isAt ((hline.isAt_eq _).trans hat)]
      exact hline.behind_newline hafter hkind

end OnLine

end Embedding

end DocLint
