import DocLint.Proofs.Concatenation.Lines
import DocLint.Proofs.Concatenation.Lowering
import DocLint.Proofs.Grammar.Runs

/-!
# A file inside another one

The tokens of a file stand among those of another one: further down, behind others and in front of
more.  Two cursors, one in each file, go on side by side as long as neither looks at what is in front
of the file or behind it.

* `Embedding`: what the two files have in common.
* `Along`, `Embeds`: both cursors are as far on, and they are at the same place.
* `AtStart`, `OnLine`: at the beginning of a statement, and in the middle of a line.
* `lineLength_embed` and the like: as far as the walks of the scanner go.
-/

namespace DocLint

open TokenKind Scanner

/-- A definition or its decorators begin with the kind. -/
def TokenKind.beginsDefinition (kind : TokenKind) : Bool :=
  kind == keyword .kDef || kind == keyword .kClass || kind == keyword .kAsync || kind == atSign

/-- How the tokens of a file stand among those of another one. -/
structure Embedding (context context' : ScanContext) (tokens : List Token) where
  /-- The token of the other file. -/
  move : Token → Token
  lines : UInt32
  bytes : Nat
  /-- The tokens of the other file behind those of this one. -/
  behind : List Token
  kind_move : ∀ t, (move t).kind = t.kind
  text_move : ∀ t, (move t).text = t.text
  /-- In front of other tokens the end of a block may stand elsewhere. -/
  move_eq : ∀ t, (behind ≠ [] → t.kind ≠ .dedent) → move t = t.lower lines bytes
  behind_head : ∀ t ∈ behind.head?, t.kind.beginsDefinition = true
  dedent_text : ∀ t ∈ tokens, t.kind = .dedent → t.text = []
  name_text : ∀ t ∈ tokens, t.kind = .identifier → t.text ≠ []
  sourceText_eq : ∀ item, (∀ t ∈ item, t ∈ tokens) →
    sourceText? context'.source (item.map (Token.lower lines bytes)) =
      sourceText? context.source item
  /-- The lines of a header begin and end at what is written in the file. -/
  codes_eq : ∀ t ∈ tokens, t.kind ≠ .dedent → ∀ u ∈ tokens, u.kind ≠ .dedent →
    Noqa.codesFor (t.position.line + lines) (u.position.line + lines) context'.comments =
      Noqa.codesFor t.position.line u.position.line context.comments

namespace TokenCursor

/-- Both cursors are as many tokens further on. -/
def Along (c c' d d' : TokenCursor) : Prop := ∃ n ≤ c.length, d = c.skip n ∧ d' = c'.skip n

variable {c c' d d' : TokenCursor}

/-- Where some token is seen, it is the first one ahead. -/
theorem exists_cons_of_isAt {kind : TokenKind} (h : c.isAt kind = true) (hkind : kind ≠ .eof) :
    ∃ t rest, c.after = t :: rest ∧ t.kind = kind := by
  obtain ⟨t, rest, hafter⟩ := List.exists_cons_of_length_pos (length_pos_of_isAt h hkind)
  rw [TokenCursor.isAt_eq hafter, beq_iff_eq] at h
  exact ⟨t, rest, hafter, h⟩

theorem length_pos_of_cons {t : Token} {rest : List Token} (h : c.after = t :: rest) :
    0 < c.length := by
  rw [length, h, List.length_cons]
  exact Nat.succ_pos _

theorem before_advance {t : Token} {rest : List Token} (h : c.after = t :: rest) :
    c.advance.before = t :: c.before := by
  rw [advance, skip, h]
  rfl

theorem Along.refl (c c' : TokenCursor) : Along c c' c c' := ⟨0, Nat.zero_le _, rfl, rfl⟩

theorem Along.skip (c' : TokenCursor) {n : Nat} (hn : n ≤ c.length) :
    Along c c' (c.skip n) (c'.skip n) := ⟨n, hn, rfl, rfl⟩

theorem Along.trans {f f' : TokenCursor} (h : Along c c' d d') (hmore : Along d d' f f') :
    Along c c' f f' := by
  obtain ⟨n, hn, rfl, rfl⟩ := h
  obtain ⟨m, hm, rfl, rfl⟩ := hmore
  rw [length_skip] at hm
  exact ⟨n + m, by omega, skip_skip c n m, skip_skip c' n m⟩

theorem Along.length_le (h : Along c c' d d') : d.length ≤ c.length := by
  obtain ⟨n, -, rfl, -⟩ := h
  rw [length_skip]
  exact Nat.sub_le _ _

/-- Behind the file both cursors have come to the same place. -/
theorem Along.skip_length (h : Along c c' d d') : d'.skip d.length = c'.skip c.length := by
  obtain ⟨n, hn, rfl, rfl⟩ := h
  rw [length_skip, skip_skip, Nat.add_sub_cancel' hn]

theorem Along.before_subset (h : Along c c' d d') : c.before ⊆ d.before := by
  obtain ⟨n, -, rfl, -⟩ := h
  exact List.subset_append_right _ _

end TokenCursor

open TokenCursor

namespace Embedding

variable {context context' : ScanContext} {tokens : List Token}

theorem isSolid_of_name (e : Embedding context context' tokens) {t : Token} (ht : t ∈ tokens)
    (hkind : t.kind = .identifier) : t.isSolid = true := by
  have htext := e.name_text t ht hkind
  rw [Token.isSolid, hkind]
  simpa using htext

variable (e : Embedding context context' tokens)

/-- Both cursors are at the same place of the file. -/
structure Embeds (c c' : TokenCursor) : Prop where
  after_eq : c'.after = c.after.map e.move ++ e.behind
  before_eq : ∃ old, c'.before = c.before.map e.move ++ old
  after_mem : ∀ t ∈ c.after, t ∈ tokens
  before_mem : ∀ t ∈ c.before, t ∈ tokens

/-- Both cursors are where a statement may begin. -/
structure AtStart (nest : Nat) (c c' : TokenCursor) : Prop extends e.Embeds c c' where
  begins : e.behind ≠ [] → Begins nest c.after

/-- Both cursors are in the middle of a line. -/
structure OnLine (nest : Nat) (c c' : TokenCursor) : Prop extends e.Embeds c c' where
  within : e.behind ≠ [] → Within nest c.after

namespace Embeds

variable {e} {c c' d d' : TokenCursor}

theorem skip (h : e.Embeds c c') {n : Nat} (hn : n ≤ c.length) :
    e.Embeds (c.skip n) (c'.skip n) := by
  have hn' : n ≤ (c.after.map e.move).length := by rwa [List.length_map]
  refine ⟨?_, ?_, fun t ht => h.after_mem t (List.mem_of_mem_drop ht), fun t ht => ?_⟩
  · rw [after_skip, after_skip, h.after_eq, List.drop_append_of_le_length hn', List.map_drop]
  · obtain ⟨old, hold⟩ := h.before_eq
    refine ⟨old, ?_⟩
    simp only [TokenCursor.skip, h.after_eq, hold, List.take_append_of_le_length hn',
      List.map_append, List.map_reverse, List.map_take, List.append_assoc]
  · rcases List.mem_append.1 ht with ht | ht
    · exact h.after_mem t (List.mem_of_mem_take (List.mem_reverse.1 ht))
    · exact h.before_mem t ht

theorem along (h : e.Embeds c c') (halong : Along c c' d d') : e.Embeds d d' := by
  obtain ⟨n, hn, rfl, rfl⟩ := halong
  exact h.skip hn

theorem length_eq (h : e.Embeds c c') : c'.length = c.length + e.behind.length := by
  rw [length, length, h.after_eq, List.length_append, List.length_map]

/-! ### Looking ahead -/

theorem kindAt_eq (h : e.Embeds c c') {n : Nat} (hn : e.behind ≠ [] → n < c.length) :
    c'.kindAt n = c.kindAt n := by
  unfold kindAt
  rw [h.after_eq]
  by_cases hlt : n < c.length
  · rw [List.getElem?_append_left (by rwa [List.length_map]), List.getElem?_map]
    cases c.after[n]? with
    | none => rfl
    | some t => exact e.kind_move t
  · have hnil : e.behind = [] := by
      by_contra hne
      exact hlt (hn hne)
    rw [hnil, List.append_nil, List.getElem?_map]
    cases c.after[n]? with
    | none => rfl
    | some t => exact e.kind_move t

theorem isAt_eq (h : e.Embeds c c') (hne : e.behind ≠ [] → c.after ≠ []) (kind : TokenKind) :
    c'.isAt kind = c.isAt kind := by
  unfold isAt TokenCursor.kind
  rw [h.kindAt_eq fun hbehind => List.length_pos_iff.2 (hne hbehind)]

theorem atEnd_eq (h : e.Embeds c c') (hne : e.behind ≠ [] → c.after ≠ []) :
    c'.atEnd = c.atEnd := by
  by_cases hbehind : e.behind = []
  · rw [atEnd, atEnd, h.after_eq, hbehind, List.append_nil, List.isEmpty_map]
  · have hafter' : c'.after ≠ [] := by
      rw [h.after_eq]
      exact List.append_ne_nil_of_right_ne_nil _ hbehind
    rw [atEnd, atEnd, List.isEmpty_eq_false_iff.2 (hne hbehind), List.isEmpty_eq_false_iff.2 hafter']

/-- The last token in front of both cursors. -/
theorem head_before (h : e.Embeds c c') {last : Token} {more : List Token}
    (hbefore : c.before = last :: more) : ∃ more', c'.before = e.move last :: more' := by
  obtain ⟨old, hold⟩ := h.before_eq
  rw [hold, hbefore]
  exact ⟨_, rfl⟩

/-- At the end of the file, a kind that begins no definition is not ahead in either file. -/
theorem isAt_plain (h : e.Embeds c c') {kind : TokenKind} (heof : kind ≠ .eof)
    (hkind : kind.beginsDefinition = false) : c'.isAt kind = c.isAt kind := by
  by_cases hafter : c.after = []
  · have hafter' : c'.after = e.behind := by rw [h.after_eq, hafter]; rfl
    rw [isAt_nil hafter heof]
    cases hbehind : e.behind with
    | nil => exact isAt_nil (hafter'.trans hbehind) heof
    | cons t rest =>
        rw [TokenCursor.isAt_eq (hafter'.trans hbehind), beq_eq_false_iff_ne]
        rintro rfl
        have hhead := e.behind_head t (by rw [hbehind]; rfl)
        rw [hkind] at hhead
        cases hhead
  · exact h.isAt_eq (fun _ => hafter) kind

/-- Both cursors pass over a token, if it is ahead. -/
theorem skipIf_along (h : e.Embeds c c') {kind : TokenKind} (heof : kind ≠ .eof)
    (hkind : kind.beginsDefinition = false) :
    Along c c' (c.skipIf kind) (c'.skipIf kind) := by
  unfold skipIf
  rw [h.isAt_plain heof hkind]
  split
  next hat => exact .skip c' (length_pos_of_isAt hat heof)
  · exact .refl c c'

/-- The token ahead in the other file. -/
theorem after_cons (h : e.Embeds c c') {t : Token} {rest : List Token} (hafter : c.after = t :: rest) :
    c'.after = e.move t :: (rest.map e.move ++ e.behind) := by
  rw [h.after_eq, hafter]
  rfl

theorem position_eq (h : e.Embeds c c') {t : Token} {rest : List Token}
    (hafter : c.after = t :: rest) (hkind : e.behind ≠ [] → t.kind ≠ .dedent) :
    c'.position = c.position.lower e.lines := by
  rw [TokenCursor.position_eq (h.after_cons hafter), TokenCursor.position_eq hafter,
    e.move_eq t hkind]
  rfl

/-- Where the last solid token ends. -/
theorem lastStop_eq (h : e.Embeds c c') (hsolid : ∃ t ∈ c.before, t.isSolid = true) :
    c'.lastStop = c.lastStop.lower e.lines := by
  obtain ⟨old, hold⟩ := h.before_eq
  have hmoved : Token.isSolid ∘ e.move = Token.isSolid := by
    funext t
    simp only [Function.comp_apply, Token.isSolid, e.kind_move, e.text_move]
  obtain ⟨last, hlast⟩ := Option.isSome_iff_exists.1 (List.find?_isSome.2 hsolid)
  have hkind : last.kind ≠ .dedent := fun hkind => by
    have htext := e.dedent_text last (h.before_mem last (List.mem_of_find?_eq_some hlast)) hkind
    have hlastSolid := List.find?_some hlast
    rw [Token.isSolid, htext] at hlastSolid
    cases hlastSolid
  unfold lastStop
  rw [hold, List.find?_append, List.find?_map, hmoved, hlast]
  show (e.move last).stop = last.stop.lower e.lines
  rw [e.move_eq last fun _ => hkind, Token.stop_lower]

end Embeds

/-! ### Walking ahead -/

section Walks

variable {e} {w : List Token}

/-- Nothing is ahead in both files. -/
theorem nil_embed (h : ¬ e.behind ≠ []) : ([] : List Token).map e.move ++ e.behind = [] :=
  not_not.1 h

/-- A line that ends in the file. -/
theorem lineLength_embed (h : e.behind ≠ [] → TokenKind.newline ∈ w.map Token.kind) :
    lineLength (w.map e.move ++ e.behind) = lineLength w := by
  induction w with
  | nil => rw [nil_embed fun hne => by cases h hne]
  | cons t rest ih =>
      rw [List.map_cons, List.cons_append, lineLength, lineLength, e.kind_move]
      split
      · rfl
      next hkind =>
        rw [ih fun hne => (List.mem_cons.1 (h hne)).resolve_left fun heq => hkind heq.symm]

/-- The head of a statement whose line ends in the file. -/
theorem headLength_embed {depth : Int} (h : e.behind ≠ [] → TokenKind.newline ∈ w.map Token.kind) :
    headLength depth (w.map e.move ++ e.behind) = headLength depth w := by
  induction w generalizing depth with
  | nil => rw [nil_embed fun hne => by cases h hne]
  | cons t rest ih =>
      rw [List.map_cons, List.cons_append, headLength, headLength, e.kind_move]
      split
      · rfl
      next hkind =>
        rw [ih fun hne => (List.mem_cons.1 (h hne)).resolve_left fun heq => hkind (.inl heq.symm)]

/-- The tokens of a line that ends in the file. -/
theorem takeWhile_embed (h : e.behind ≠ [] → TokenKind.newline ∈ w.map Token.kind) :
    (w.map e.move ++ e.behind).takeWhile (fun t => t.kind != .newline) =
      (w.takeWhile fun t => t.kind != .newline).map e.move := by
  induction w with
  | nil =>
      rw [nil_embed fun hne => by cases h hne]
      rfl
  | cons t rest ih =>
      rw [List.map_cons, List.cons_append, List.takeWhile_cons, List.takeWhile_cons, e.kind_move]
      split
      next hkind =>
        rw [ih fun hne => (List.mem_cons.1 (h hne)).resolve_left fun heq => by simp [← heq] at hkind,
          List.map_cons]
      · rfl

/-- Where a bracket is open behind a kind, the depth is as the nesting says. -/
theorem depthAfter_of_open {depth : Nat} {kind : TokenKind} (h : 0 < (depth : Int) + kind.nesting) :
    (Lexer.depthAfter depth kind : Int) = depth + kind.nesting := by
  unfold Lexer.depthAfter nesting at *
  grind

/-- A group of brackets, which ends in front of the end of its line. -/
theorem groupLength_embed {depth : Nat} (h : e.behind ≠ [] → TokenKind.newline ∈ w.map Token.kind ∧
      newlinesOutside depth (w.map Token.kind) = true) :
    groupLength depth (w.map e.move ++ e.behind) = groupLength depth w := by
  induction w generalizing depth with
  | nil => rw [nil_embed fun hne => by cases (h hne).1]
  | cons t rest ih =>
      rw [List.map_cons, List.cons_append, groupLength, groupLength, e.kind_move]
      split
      next hdepth =>
        rw [← depthAfter_of_open hdepth, ih fun hne => ?_]
        obtain ⟨hmem, houtside⟩ := h hne
        rw [List.map_cons] at hmem houtside
        obtain ⟨hzero, hrest⟩ := newlinesOutside_cons houtside
        refine ⟨(List.mem_cons.1 hmem).resolve_left fun heq => ?_, hrest⟩
        rw [hzero heq.symm, ← heq] at hdepth
        simp [nesting, isOpening, isClosing] at hdepth
      · rfl

/-- A list of parameters that ends in the file. -/
theorem listLength_embed {depth : Int} (h : e.behind ≠ [] → listLength depth w < w.length) :
    listLength depth (w.map e.move ++ e.behind) = listLength depth w := by
  induction w generalizing depth with
  | nil => rw [nil_embed fun hne => by cases h hne]
  | cons t rest ih =>
      rw [List.map_cons, List.cons_append, listLength, listLength, e.kind_move]
      split
      · rfl
      next hkind =>
        rw [ih fun hne => ?_]
        have hlt := h hne
        rw [listLength, if_neg hkind, List.length_cons] at hlt
        omega

end Walks

/-! ### Lines and statements -/

variable {e} {nest : Nat} {c c' : TokenCursor} {t : Token} {rest : List Token}

namespace OnLine

theorem ne_nil (h : e.OnLine nest c c') (hbehind : e.behind ≠ []) : c.after ≠ [] :=
  (h.within hbehind).ne_nil

theorem isAt_eq (h : e.OnLine nest c c') (kind : TokenKind) : c'.isAt kind = c.isAt kind :=
  h.toEmbeds.isAt_eq h.ne_nil kind

theorem skip {n : Nat} (h : e.OnLine nest c c') (hn : n ≤ c.length)
    (hline : e.behind ≠ [] → ∀ t ∈ c.after.take n, t.kind ≠ .newline) :
    e.OnLine nest (c.skip n) (c'.skip n) :=
  ⟨h.toEmbeds.skip hn, fun hbehind => (h.within hbehind).drop (hline hbehind)⟩

theorem advance (h : e.OnLine nest c c') (hafter : c.after = t :: rest) (ht : t.kind ≠ .newline) :
    e.OnLine nest c.advance c'.advance := by
  refine h.skip (length_pos_of_cons hafter) fun _ u hu => ?_
  rw [hafter] at hu
  obtain rfl : u = t := by simpa using hu
  exact ht

/-- Behind the end of the line a statement may begin. -/
theorem behind_newline (h : e.OnLine nest c c') (hafter : c.after = t :: rest)
    (ht : t.kind = .newline) : e.AtStart nest c.advance c'.advance := by
  refine ⟨h.toEmbeds.skip (length_pos_of_cons hafter), fun hbehind => ?_⟩
  have hwithin := h.within hbehind
  rw [hafter] at hwithin
  rw [after_advance hafter]
  exact hwithin.behind_newline ht

end OnLine

namespace AtStart

/-- Something written begins a line. -/
theorem onLine (h : e.AtStart nest c c') (hafter : c.after = t :: rest)
    (ht : t.kind.isWritten = true) : e.OnLine nest c c' := by
  refine ⟨h.toEmbeds, fun hbehind => ?_⟩
  have hbegins := h.begins hbehind
  rw [hafter] at hbegins ⊢
  exact hbegins.within_written ht

/-- What is not a mark of the layout begins a line. -/
theorem onLine_of_ne (h : e.AtStart nest c c') (hafter : c.after = t :: rest)
    (hnewline : t.kind ≠ .newline) (hindent : t.kind ≠ .indent) (hdedent : t.kind ≠ .dedent) :
    e.OnLine nest c c' := by
  refine ⟨h.toEmbeds, fun hbehind => ?_⟩
  have hbegins := h.begins hbehind
  rw [hafter] at hbegins ⊢
  exact hbegins.within_written (hbegins.isWritten hnewline hindent hdedent)

/-- A token behind which a statement may begin. -/
theorem advance {more : Nat} (h : e.AtStart nest c c') (hafter : c.after = t :: rest)
    (hbegins : e.behind ≠ [] → Begins nest (t :: rest) → Begins more rest) :
    e.AtStart more c.advance c'.advance := by
  refine ⟨h.toEmbeds.skip (length_pos_of_cons hafter), fun hbehind => ?_⟩
  rw [after_advance hafter]
  exact hbegins hbehind (hafter ▸ h.begins hbehind)

end AtStart

end Embedding

end DocLint
