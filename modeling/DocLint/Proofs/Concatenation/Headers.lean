import DocLint.Proofs.Concatenation.Openings
import DocLint.Proofs.Source.Reading

/-!
# Headers, inside another file

A header that is accepted in a file is accepted in another one that the file stands in, and says the
same there.

* `Parameter.ofItems_lower`: parameters that are written further down.
* `OnLine.parameterList`, `OnLine.skipResult`, `OnLine.classBases`: the parts of a header.
* `AtStart.functionHeader`, `AtStart.classHeader`: whole headers.
-/

namespace DocLint

open TokenKind Scanner TokenCursor

/-! ### Parameters further down -/

section Items

variable (lines : UInt32) (bytes : Nat)

theorem splitCommas_lower (depth : Int) (tokens : List Token) :
    splitCommas depth (tokens.map (Token.lower lines bytes)) =
      (splitCommas depth tokens).map (List.map (Token.lower lines bytes)) := by
  induction tokens generalizing depth with
  | nil => rfl
  | cons t rest ih =>
      rw [List.map_cons, splitCommas, splitCommas, Token.kind_lower]
      split
      · rw [ih]
        rfl
      · rw [ih]
        cases splitCommas (depth + t.kind.nesting) rest with
        | nil => rfl
        | cons item items => rfl

theorem splitItems_lower (tokens : List Token) :
    splitItems (tokens.map (Token.lower lines bytes)) =
      (splitItems tokens).map (List.map (Token.lower lines bytes)) := by
  rw [splitItems, splitItems, splitCommas_lower, List.filter_map]
  congr 2
  funext item
  rw [Function.comp_apply, List.isEmpty_map]

theorem annotationLength_lower (depth : Int) (tokens : List Token) :
    annotationLength depth (tokens.map (Token.lower lines bytes)) =
      annotationLength depth tokens := by
  induction tokens generalizing depth with
  | nil => rfl
  | cons t rest ih =>
      rw [List.map_cons, annotationLength, annotationLength, Token.kind_lower]
      split
      · rfl
      · rw [ih]

theorem isSevered_lower (tokens : List Token) :
    isSevered (tokens.map (Token.lower lines bytes)) = isSevered tokens := by
  rw [isSevered, isSevered, List.head?_map, List.getLast?_map]
  cases tokens.head? with
  | none => rfl
  | some first =>
      cases tokens.getLast? with
      | none => rfl
      | some last => rfl

namespace Parameter

theorem kindOf_lower (item : List Token) :
    kindOf (item.map (Token.lower lines bytes)) =
      ((kindOf item).1, (kindOf item).2.map (Token.lower lines bytes)) := by
  cases item with
  | nil => rfl
  | cons t rest =>
      rw [List.map_cons, kindOf, kindOf, Token.kind_lower]
      by_cases hstar : t.kind = .star
      · rw [if_pos hstar, if_pos hstar]
      · rw [if_neg hstar, if_neg hstar]
        by_cases hdouble : t.kind = .doubleStar
        · rw [if_pos hdouble, if_pos hdouble]
        · rw [if_neg hdouble, if_neg hdouble]
          rfl

theorem mem_kindOf {item : List Token} {t : Token} (h : t ∈ (kindOf item).2) : t ∈ item := by
  cases item with
  | nil => exact h
  | cons u rest =>
      rw [kindOf] at h
      split at h
      · exact List.mem_cons_of_mem u h
      · split at h
        · exact List.mem_cons_of_mem u h
        · exact h

theorem mem_annotationRun {tokens : List Token} {t : Token} (h : t ∈ (annotationRun tokens).1) :
    t ∈ tokens := by
  cases tokens with
  | nil => exact h
  | cons u rest =>
      rw [annotationRun] at h
      split at h
      · exact List.mem_cons_of_mem u (List.mem_of_mem_take h)
      · cases h

theorem mem_behind_annotationRun {tokens : List Token} {t : Token}
    (h : t ∈ (annotationRun tokens).2) : t ∈ tokens := by
  cases tokens with
  | nil => exact h
  | cons u rest =>
      rw [annotationRun] at h
      split at h
      · exact List.mem_cons_of_mem u (List.mem_of_mem_drop h)
      · exact h

theorem mem_defaultRun {tokens : List Token} {t : Token} (h : t ∈ defaultRun tokens) :
    t ∈ tokens := by
  cases tokens with
  | nil => exact h
  | cons u rest =>
      rw [defaultRun] at h
      split at h
      · exact List.mem_cons_of_mem u h
      · cases h

theorem annotationRun_lower (tokens : List Token) :
    annotationRun (tokens.map (Token.lower lines bytes)) =
      ((annotationRun tokens).1.map (Token.lower lines bytes),
        (annotationRun tokens).2.map (Token.lower lines bytes)) := by
  cases tokens with
  | nil => rfl
  | cons t rest =>
      rw [List.map_cons, annotationRun, annotationRun, Token.kind_lower]
      by_cases hcolon : t.kind = .colon
      · rw [if_pos hcolon, if_pos hcolon]
        dsimp only
        rw [annotationLength_lower, ← List.map_take, ← List.map_drop]
      · rw [if_neg hcolon, if_neg hcolon]
        rfl

theorem defaultRun_lower (tokens : List Token) :
    defaultRun (tokens.map (Token.lower lines bytes)) =
      (defaultRun tokens).map (Token.lower lines bytes) := by
  cases tokens with
  | nil => rfl
  | cons t rest =>
      rw [List.map_cons, defaultRun, defaultRun, Token.kind_lower]
      by_cases hassign : t.kind = .assign
      · rw [if_pos hassign, if_pos hassign]
      · rw [if_neg hassign, if_neg hassign]
        rfl

theorem itemSpan_lower {item : List Token} (h : item ≠ []) :
    itemSpan (item.map (Token.lower lines bytes)) = (itemSpan item).lower lines := by
  cases item with
  | nil => exact absurd rfl h
  | cons t rest =>
      rw [itemSpan, itemSpan, List.head?_map, List.getLast?_map,
        List.getLast?_eq_some_getLast (List.cons_ne_nil t rest)]
      exact Span.mk.injEq _ _ _ _ ▸ ⟨rfl, Token.stop_lower lines bytes _⟩

variable {lines bytes} {source source' : Bytes}

section Item

variable {item : List Token} (hsource : ∀ piece, (∀ t ∈ piece, t ∈ item) →
    sourceText? source' (piece.map (Token.lower lines bytes)) = sourceText? source piece)
include hsource

/-- The item says the same further down. -/
theorem ofItem_lower :
    ofItem source' (item.map (Token.lower lines bytes)) =
      match ofItem source item with
      | .ok p => .ok (p.map (lower lines))
      | .error fault => .error (fault.lower lines) := by
  have hmem (t : Token) (ht : t ∈ (kindOf item).2) : t ∈ item := mem_kindOf ht
  rw [ofItem, ofItem, kindOf_lower]
  dsimp only
  cases hnamed : (kindOf item).2 with
  | nil => rfl
  | cons t rest =>
      rw [hnamed] at hmem
      have hrest (u : Token) (hu : u ∈ rest) : u ∈ item := hmem u (List.mem_cons_of_mem t hu)
      have hne : item ≠ [] := List.ne_nil_of_mem (hmem t List.mem_cons_self)
      have hlast : (t.lower lines bytes).kind = .slash ∧ rest.map (Token.lower lines bytes) = [] ↔
          t.kind = .slash ∧ rest = [] := by
        rw [Token.kind_lower, List.map_eq_nil_iff]
      rw [List.map_cons]
      dsimp only
      by_cases hslash : t.kind = .slash ∧ rest = []
      · rw [if_pos hslash, if_pos (hlast.2 hslash)]
        rfl
      · rw [if_neg hslash, if_neg (mt hlast.1 hslash)]
        by_cases hname : t.kind = .identifier
        · rw [if_pos hname, if_pos (show (t.lower lines bytes).kind = .identifier from hname),
            annotationRun_lower, itemSpan_lower _ _ hne]
          dsimp only
          rw [defaultRun_lower, isSevered_lower, isSevered_lower,
            hsource _ fun u hu => hrest u (mem_annotationRun hu),
            hsource _ fun u hu => hrest u (mem_behind_annotationRun (mem_defaultRun hu))]
          split
          · rfl
          · rfl
        · rw [if_neg hname, if_neg (show ¬ (t.lower lines bytes).kind = .identifier from hname)]
          rfl

end Item

/-- So do some items. -/
theorem ofItems_lower {items : List (List Token)}
    (hitems : ∀ item ∈ items, ∀ piece, (∀ t ∈ piece, t ∈ item) →
      sourceText? source' (piece.map (Token.lower lines bytes)) = sourceText? source piece) :
    ofItems source' (items.map (List.map (Token.lower lines bytes))) =
        (ofItems source items).map (lower lines) ∧
      faultsOf source' (items.map (List.map (Token.lower lines bytes))) =
        (faultsOf source items).map (Fault.lower lines) := by
  constructor
  · rw [ofItems, ofItems, List.filterMap_map, List.map_filterMap]
    refine List.filterMap_congr fun item hitem => ?_
    rw [Function.comp_apply, ofItem_lower (hitems item hitem)]
    cases ofItem source item with
    | ok p => rfl
    | error fault => rfl
  · rw [faultsOf, faultsOf, List.filterMap_map, List.map_filterMap]
    refine List.filterMap_congr fun item hitem => ?_
    rw [Function.comp_apply, ofItem_lower (hitems item hitem)]
    cases ofItem source item with
    | ok p => rfl
    | error fault => rfl

end Parameter

end Items

/-! ### The parts of a header -/

namespace Scanner

theorem listLength_le (depth : Int) (tokens : List Token) :
    listLength depth tokens ≤ tokens.length := by
  induction tokens generalizing depth with
  | nil => exact Nat.le_refl _
  | cons t rest ih =>
      rw [listLength, List.length_cons]
      split
      · exact Nat.zero_le _
      · exact Nat.succ_le_succ (ih _)

theorem headLength_le (depth : Int) (tokens : List Token) :
    headLength depth tokens ≤ tokens.length := by
  induction tokens generalizing depth with
  | nil => exact Nat.le_refl _
  | cons t rest ih =>
      rw [headLength, List.length_cons]
      split
      · exact Nat.zero_le _
      · exact Nat.succ_le_succ (ih _)

theorem groupLength_le (depth : Int) (tokens : List Token) :
    groupLength depth tokens ≤ tokens.length := by
  induction tokens generalizing depth with
  | nil => exact Nat.le_refl _
  | cons t rest ih =>
      rw [groupLength, List.length_cons]
      split
      · exact Nat.succ_le_succ (ih _)
      · exact Nat.le_add_left 1 _

/-- Of an accepted list of parameters nothing is reported, and its parenthesis is closed. -/
theorem parameterList_accepted {source : Bytes} {c : TokenCursor}
    (h : (parameterList source c).2.1 = []) :
    let length := listLength 0 c.after
    Parameter.faultsOf source (splitItems (c.after.take length)) = [] ∧
      (c.skip length).isAt .rightParen = true ∧
      parameterList source c =
        (Parameter.ofItems source (splitItems (c.after.take length)), [], (c.skip length).advance) := by
  intro length
  obtain ⟨hitems, hunclosed⟩ := List.append_eq_nil_iff.1 h
  have hclosed : (c.skip length).isAt .rightParen = true := by
    by_contra hopen
    rw [if_neg hopen] at hunclosed
    cases hunclosed
  exact ⟨hitems, hclosed, Prod.ext rfl (Prod.ext h (skipIf_of_isAt hclosed))⟩

theorem endHeader_accepted {α : Type} {faults : List Fault} {make : UInt32 → α} {c : TokenCursor}
    (h : (endHeader faults make c).faults = []) : faults = [] ∧ c.isAt .colon = true := by
  rw [endHeader] at h
  split at h
  next hcolon => exact ⟨h, hcolon⟩
  · exact absurd h (List.append_ne_nil_of_right_ne_nil _ (List.cons_ne_nil _ _))

/-- A header that ends in its colon. -/
theorem endHeader_eq {α : Type} (make : UInt32 → α) {c : TokenCursor} (h : c.isAt .colon = true) :
    endHeader [] make c = ⟨some (make c.position.line), [], c.advance⟩ := by
  rw [endHeader, if_pos h]

section FunctionHeader

variable {source : Bytes} {c : TokenCursor}

/-- What an accepted header of a function is made of. -/
theorem functionHeader_accepted (h : (functionHeader source c).faults = []) :
    ∃ name rest, c.advance.after = name :: rest ∧ name.kind = .identifier ∧
      c.advance.advance.isAt .leftParen = true ∧
      (parameterList source c.advance.advance.advance).2.1 = [] ∧
      (skipResult (parameterList source c.advance.advance.advance).2.2).isAt .colon = true := by
  rw [functionHeader] at h
  dsimp only at h
  split at h
  · cases h
  next name rest hafter =>
    split at h
    next hname =>
      split at h
      next hopen =>
        obtain ⟨hlist, hcolon⟩ := endHeader_accepted h
        exact ⟨name, rest, hafter, hname, hopen, hlist, hcolon⟩
      · cases h
    · cases h

theorem functionHeader_eq {name : Token} {rest : List Token} (hafter : c.advance.after = name :: rest)
    (hname : name.kind = .identifier) (hopen : c.advance.advance.isAt .leftParen = true)
    {parameters : List Parameter} {behind : TokenCursor}
    (hlist : parameterList source c.advance.advance.advance = (parameters, [], behind))
    (hcolon : (skipResult behind).isAt .colon = true) :
    functionHeader source c =
      ⟨some ⟨⟨name.text, name.span⟩, parameters, (skipResult behind).position.line⟩, [],
        (skipResult behind).advance⟩ := by
  rw [functionHeader, hafter]
  simp only [if_pos hname, if_pos hopen, hlist]
  exact endHeader_eq _ hcolon

end FunctionHeader

/-- What an accepted header of a class is made of. -/
theorem classHeader_accepted {c : TokenCursor} (h : (classHeader c).faults = []) :
    ∃ name rest, c.advance.after = name :: rest ∧ name.kind = .identifier ∧
      (classBases c.advance.advance).isAt .colon = true := by
  rw [classHeader] at h
  split at h
  · cases h
  next name rest hafter =>
    split at h
    next hname => exact ⟨name, rest, hafter, hname, (endHeader_accepted h).2⟩
    · cases h

theorem classHeader_eq {c : TokenCursor} {name : Token} {rest : List Token}
    (hafter : c.advance.after = name :: rest) (hname : name.kind = .identifier)
    (hcolon : (classBases c.advance.advance).isAt .colon = true) :
    classHeader c =
      ⟨some ⟨⟨name.text, name.span⟩, (classBases c.advance.advance).position.line⟩, [],
        (classBases c.advance.advance).advance⟩ := by
  rw [classHeader, hafter]
  simp only [if_pos hname]
  exact endHeader_eq _ hcolon

end Scanner

namespace Embedding

variable {context context' : ScanContext} {tokens : List Token}
  {e : Embedding context context' tokens} {nest : Nat} {c c' : TokenCursor} {t : Token}
  {rest : List Token}

namespace OnLine

/-- A list of parameters that is accepted and does not go over the end of its line. -/
theorem parameterList (h : e.OnLine nest c c')
    (hline : e.behind ≠ [] → ∀ t ∈ c.after.take (listLength 0 c.after), t.kind ≠ .newline)
    (hfaults : (Scanner.parameterList context.source c).2.1 = []) :
    ∃ d', Scanner.parameterList context'.source c' =
        ((Scanner.parameterList context.source c).1.map (Parameter.lower e.lines), [], d') ∧
      Along c c' (Scanner.parameterList context.source c).2.2 d' ∧
      e.OnLine nest (Scanner.parameterList context.source c).2.2 d' := by
  obtain ⟨hitems, hclosed, heq⟩ := parameterList_accepted hfaults
  have hle : listLength 0 c.after ≤ c.length := listLength_le 0 c.after
  have hlength : listLength 0 c'.after = listLength 0 c.after := by
    rw [h.after_eq]
    exact listLength_embed fun hbehind => ((h.within hbehind).take_line (hline hbehind)).1
  have hskip := h.skip hle hline
  obtain ⟨u, more, hu, hkind⟩ := exists_cons_of_isAt hclosed (by decide)
  -- The tokens of the list are on one line, so that none of them ends a block.
  have htake : c'.after.take (listLength 0 c.after) =
      (c.after.take (listLength 0 c.after)).map (Token.lower e.lines e.bytes) := by
    rw [h.after_eq, List.take_append_of_le_length (by rwa [List.length_map]), ← List.map_take]
    refine List.map_congr_left fun t ht => e.move_eq t fun hbehind => ?_
    exact ((h.within hbehind).take_line (hline hbehind)).2 t ht
  have hsource : ∀ item ∈ splitItems (c.after.take (listLength 0 c.after)),
      ∀ piece, (∀ t ∈ piece, t ∈ item) →
        sourceText? context'.source (piece.map (Token.lower e.lines e.bytes)) =
          sourceText? context.source piece := fun item hitem piece hpiece =>
    e.sourceText_eq piece fun t ht => h.after_mem t <| List.mem_of_mem_take <|
      (isInfix_of_mem_splitItems hitem).subset (hpiece t ht)
  obtain ⟨hparameters, hreported⟩ := Parameter.ofItems_lower hsource
  rw [hitems] at hreported
  have hclosed' : (c'.skip (listLength 0 c.after)).isAt .rightParen = true :=
    (hskip.isAt_eq _).trans hclosed
  have halong : Along c c' (c.skip (listLength 0 c.after)).advance
      (c'.skip (listLength 0 c.after)).advance :=
    (Along.skip c' hle).trans (.skip _ (length_pos_of_isAt hclosed (by decide)))
  refine ⟨(c'.skip (listLength 0 c.after)).advance, ?_, ?_⟩
  · rw [heq, Scanner.parameterList, hlength, htake, splitItems_lower, hparameters, hreported,
      if_pos hclosed', skipIf_of_isAt hclosed']
    rfl
  · rw [heq]
    exact ⟨halong, hskip.advance hu (by rw [hkind]; decide)⟩

/-- The annotation of the result. -/
theorem skipResult (h : e.OnLine nest c c') :
    Along c c' (Scanner.skipResult c) (Scanner.skipResult c') ∧
      e.OnLine nest (Scanner.skipResult c) (Scanner.skipResult c') := by
  rw [Scanner.skipResult, Scanner.skipResult, h.isAt_eq]
  split
  next hat =>
    obtain ⟨t, rest, hafter, hkind⟩ := exists_cons_of_isAt hat (by decide)
    have hadvance := h.advance hafter (by rw [hkind]; decide)
    have hlength : headLength 0 c'.advance.after = headLength 0 c.advance.after := by
      rw [hadvance.after_eq]
      exact headLength_embed fun hbehind => (hadvance.within hbehind).newline_mem
    dsimp only
    rw [hlength]
    have hle : headLength 0 c.advance.after ≤ c.advance.length := headLength_le _ _
    refine ⟨.trans (.skip c' (length_pos_of_isAt hat (by decide))) (.skip _ hle), ?_⟩
    exact hadvance.skip hle fun _ => headLength_line _ _
  · exact ⟨.refl c c', h⟩

/-- The bases of a class. -/
theorem classBases (h : e.OnLine nest c c')
    (houtside : e.behind ≠ [] → newlinesOutside 0 (c.after.map Token.kind) = true) :
    Along c c' (Scanner.classBases c) (Scanner.classBases c') ∧
      e.OnLine nest (Scanner.classBases c) (Scanner.classBases c') := by
  rw [Scanner.classBases, Scanner.classBases, h.isAt_eq]
  split
  next hat =>
    obtain ⟨t, rest, hafter, hkind⟩ := exists_cons_of_isAt hat (by decide)
    have hlength : groupLength 0 c'.after = groupLength 0 c.after := by
      rw [h.after_eq]
      exact groupLength_embed fun hbehind =>
        ⟨(h.within hbehind).newline_mem, houtside hbehind⟩
    have hle : groupLength 0 c.after ≤ c.length := groupLength_le _ _
    rw [hlength]
    refine ⟨.skip c' hle, h.skip hle fun hbehind => ?_⟩
    have hrest := houtside hbehind
    rw [hafter, List.map_cons, hkind] at hrest
    have hgroup : groupLength 0 c.after = groupLength 1 rest + 1 := by
      rw [hafter, groupLength, hkind]
      rfl
    rw [hgroup, hafter, List.take_succ_cons]
    intro u hu
    rcases List.mem_cons.1 hu with rfl | hu
    · rw [hkind]
      decide
    · exact groupLength_line Nat.one_pos (newlinesOutside_cons hrest).2 u hu
  · exact ⟨.refl c c', h⟩

end OnLine

/-- Behind its name a cursor has a solid token in front of it. -/
theorem exists_isSolid (h : e.Embeds c c') (hafter : c.after = t :: rest)
    (ht : t.kind = .identifier) {d d' : TokenCursor} (halong : Along c.advance c'.advance d d') :
    ∃ u ∈ d.before, u.isSolid = true := by
  refine ⟨t, halong.before_subset ?_,
    e.isSolid_of_name (h.after_mem t (hafter ▸ List.mem_cons_self)) ht⟩
  rw [before_advance hafter]
  exact List.mem_cons_self

/-- The colon of a header. -/
theorem OnLine.endHeader (h : e.OnLine nest c c') (hcolon : c.isAt .colon = true) :
    c'.isAt .colon = true ∧ c'.position.line = c.position.line + e.lines ∧
      (∃ u ∈ tokens, u.kind ≠ .dedent ∧ u.position.line = c.position.line) ∧
      Along c c' c.advance c'.advance ∧
      e.OnLine nest c.advance c'.advance := by
  obtain ⟨u, more, hu, hkind⟩ := exists_cons_of_isAt hcolon (by decide)
  refine ⟨(h.isAt_eq _).trans hcolon, ?_, ⟨u, h.after_mem u (hu ▸ List.mem_cons_self), ?_, ?_⟩,
    .skip c' (length_pos_of_isAt hcolon (by decide)), h.advance hu (by rw [hkind]; decide)⟩
  · rw [h.position_eq hu fun _ => by rw [hkind]; decide]
    rfl
  · rw [hkind]
    decide
  · rw [TokenCursor.position_eq hu]

/-- The name in a header, further down. -/
theorem OnLine.name_cons (h : e.OnLine nest c c') {name : Token} {rest : List Token}
    (hname : c.after = name :: rest) (hkind : name.kind = .identifier) :
    c'.after = name.lower e.lines e.bytes :: (rest.map e.move ++ e.behind) := by
  rw [h.after_cons hname, e.move_eq name fun _ => by rw [hkind]; decide]

/-- An accepted header of a class. -/
theorem AtStart.classHeader (h : e.AtStart nest c c') (hat : c.isAt (.keyword .kClass) = true)
    (hfaults : (Scanner.classHeader c).faults = []) :
    ∃ header d d', Scanner.classHeader c = ⟨some header, [], d⟩ ∧
      Scanner.classHeader c' = ⟨some (header.lower e.lines), [], d'⟩ ∧
      Along c c' d d' ∧ e.OnLine nest d d' ∧
      (∃ u ∈ d.before, u.isSolid = true) ∧
      ∃ u ∈ tokens, u.kind ≠ .dedent ∧ u.position.line = header.lastLine := by
  obtain ⟨name, rest, hname, hkind, hcolon⟩ := classHeader_accepted hfaults
  obtain ⟨word, more, hword, hclass⟩ := exists_cons_of_isAt hat (by decide)
  have hline := (h.onLine hword (by rw [hclass]; rfl)).advance hword (by rw [hclass]; decide)
  have hbehind := hline.advance hname (by rw [hkind]; decide)
  obtain ⟨hbases, hend⟩ := hbehind.classBases fun hne => by
    have houtside := (h.begins hne).outside
    rw [hword, List.map_cons, hclass] at houtside
    have hrest := (newlinesOutside_cons houtside).2
    rw [after_advance hword] at hname
    rw [hname, List.map_cons, hkind] at hrest
    rw [after_advance (after_advance hword |>.trans hname)]
    exact (newlinesOutside_cons hrest).2
  obtain ⟨hcolon', hlast, hmem, hadvance, hrest⟩ := hend.endHeader hcolon
  have halong := hbases.trans hadvance
  refine ⟨_, _, _, classHeader_eq hname hkind hcolon, ?_,
    .trans (.skip c' (length_pos_of_isAt hat (by decide)))
      (.trans (.skip _ (length_pos_of_cons hname)) halong), hrest,
    exists_isSolid hline.toEmbeds hname hkind halong, hmem⟩
  rw [classHeader_eq (hline.name_cons hname hkind) hkind hcolon', hlast, Token.span_lower]
  rfl

/-- An accepted header of a function. -/
theorem AtStart.functionHeader (h : e.AtStart nest c c') (hat : c.isAt (.keyword .kDef) = true)
    (hfaults : (Scanner.functionHeader context.source c).faults = []) :
    ∃ header d d', Scanner.functionHeader context.source c = ⟨some header, [], d⟩ ∧
      Scanner.functionHeader context'.source c' = ⟨some (header.lower e.lines), [], d'⟩ ∧
      Along c c' d d' ∧ e.OnLine nest d d' ∧
      (∃ u ∈ d.before, u.isSolid = true) ∧
      ∃ u ∈ tokens, u.kind ≠ .dedent ∧ u.position.line = header.lastLine := by
  obtain ⟨name, rest, hname, hkind, hopen, hlist, hcolon⟩ := functionHeader_accepted hfaults
  obtain ⟨word, more, hword, hdef⟩ := exists_cons_of_isAt hat (by decide)
  obtain ⟨paren, list, hparen, hleft⟩ := exists_cons_of_isAt hopen (by decide)
  have hline := (h.onLine hword (by rw [hdef]; rfl)).advance hword (by rw [hdef]; decide)
  have hopening := hline.advance hname (by rw [hkind]; decide)
  have hinside := hopening.advance hparen (by rw [hleft]; decide)
  -- The list is closed on the line of the name.
  have hcloses (hne : e.behind ≠ []) : ∀ t ∈ c.advance.advance.advance.after.take
      (listLength 0 c.advance.advance.advance.after), t.kind ≠ .newline := by
    have hbegins := h.begins hne
    rw [hword] at hbegins
    have hcloses := hbegins.closesList hdef
    rw [after_advance hword] at hname
    rw [after_advance (after_advance hword |>.trans hname)] at hparen
    rw [after_advance (after_advance (after_advance hword |>.trans hname) |>.trans hparen)]
    rw [hname, hparen, closesList, hkind, hleft] at hcloses
    simpa using hcloses
  obtain ⟨behind', hlist', hskip, hbehind⟩ := hinside.parameterList hcloses hlist
  obtain ⟨hresult, hend⟩ := hbehind.skipResult
  obtain ⟨hcolon', hlast, hmem, hadvance, hrest⟩ := hend.endHeader hcolon
  have halong := (Along.skip c'.advance.advance (length_pos_of_cons hparen)).trans
    (hskip.trans (hresult.trans hadvance))
  refine ⟨_, _, _, functionHeader_eq hname hkind hopen (Prod.ext rfl (Prod.ext hlist rfl)) hcolon, ?_,
    .trans (.skip c' (length_pos_of_isAt hat (by decide)))
      (.trans (.skip _ (length_pos_of_cons hname)) halong), hrest,
    exists_isSolid hline.toEmbeds hname hkind halong, hmem⟩
  rw [functionHeader_eq (hline.name_cons hname hkind) hkind ((hopening.isAt_eq _).trans hopen)
    hlist' hcolon', hlast, Token.span_lower]
  rfl

end Embedding

end DocLint
