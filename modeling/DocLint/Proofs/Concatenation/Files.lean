import DocLint.Proofs.Concatenation.Places
import DocLint.Proofs.Concatenation.Scanning
import DocLint.Proofs.Text.Extent

/-!
# One file behind another

A file that is accepted and ends with an empty line may be followed by another accepted file that
begins with a definition: both together are accepted, and declare what the two declare, the second
one further down.  For this the decorators and parameters of the first file must stay in their blocks
and lines; the scanner would take tokens of the second file to them otherwise.

* `frontEmbedding`, `backEmbedding`: the tokens of both files among those of the whole.
* `ScannedSource.ofSource_append`: what the whole declares.
* `declarations_openDecorator`: a decorator that its block ends behind takes in the next file.
-/

namespace DocLint

open Bytes Scanner TokenCursor

/-- What the scanner knows of a source text besides its tokens. -/
def ScanContext.ofSource (source : Bytes) : ScanContext :=
  ⟨source, (LexedSource.ofSource source).comments⟩

/-- The scanner in front of the tokens of a source text. -/
def LexedSource.cursor (s : LexedSource) : TokenCursor := .ofTokens s.tokens

/-- No line of decorators is the last one of its block, and no list of parameters goes over the end
of its line. -/
def LexedSource.isContained (s : LexedSource) : Bool :=
  Scanner.isContained .newline s.tokens.dropLast

namespace LexedSource

/-! ### Tokens and comments of a text -/

section Text

variable {source : Bytes}

theorem line_isAt {p : Position} {k : Nat} (h : p.IsAt source k) :
    0 < p.line.toNat ∧ p.line.toNat ≤ 1 + source.count newline := by
  have hcount := (List.take_sublist k source).count_le newline
  rw [h.1]
  omega

theorem length_le_of_mem_tokens (hsize : source.length < 2 ^ 31) {t : Token}
    (ht : t ∈ (ofSource source).tokens) : t.offset + t.text.length ≤ source.length :=
  ((ofSource_tiles hsize).token_place t ht).1.length_le

end Text

theorem token_isSpelled {source : Bytes} {t : Token} (ht : t ∈ (ofSource source).tokens.dropLast) :
    (LexItem.token t).IsSpelled :=
  ofSource_isSpelled source _ (mem_tokens_iff.1 (List.mem_of_mem_dropLast ht))

theorem name_ne_nil {source : Bytes} {t : Token} (ht : t ∈ (ofSource source).tokens.dropLast)
    (hkind : t.kind = .identifier) : t.text ≠ [] :=
  (token_isSpelled ht).1 (by rw [hkind]; rfl)

/-- The end mark is the last token. -/
theorem kinds_eq (source : Bytes) :
    (ofSource source).tokens.map Token.kind = kindsAhead (ofSource source).tokens.dropLast := by
  obtain ⟨body, hkinds, -⟩ := (arranged source).eof_last
  rw [kindsAhead, List.map_dropLast, hkinds, List.dropLast_concat]

/-- A first token that is not the end mark is one of the others. -/
theorem head?_dropLast_tokens {source : Bytes} {t : Token}
    (ht : (ofSource source).tokens.head? = some t) (hkind : t.kind ≠ .eof) :
    (ofSource source).tokens.dropLast.head? = some t := by
  rw [List.head?_dropLast, if_pos, ht]
  by_contra hshort
  have hkinds := kinds_eq source
  have hnone : (ofSource source).tokens.dropLast = [] := by
    rw [← List.length_eq_zero_iff, List.length_dropLast]
    omega
  obtain ⟨rest, hrest⟩ := List.head?_eq_some_iff.1 ht
  rw [hnone, hrest] at hkinds
  exact hkind (List.cons.inj hkinds).1

/-- In front of a definition only the ends of blocks may be moved. -/
theorem MovesDedents.eq_lower {f : Token → Token} (hf : MovesDedents f) {tokens : List Token}
    {g : Token → Token} (hfirst : ∃ t ∈ tokens.head?, t.kind.beginsDefinition = true) {t : Token}
    (ht : tokens.map g ≠ [] → t.kind ≠ .dedent) : f t = t.lower 0 0 := by
  obtain ⟨u, hu, -⟩ := hfirst
  rw [Token.lower_zero]
  refine hf.eq_self t (ht fun hnil => ?_)
  rw [List.map_eq_nil_iff.1 hnil] at hu
  cases hu

theorem beginsDefinition_lower {tokens : List Token} {lines : UInt32} {bytes : Nat}
    (hfirst : ∃ t ∈ tokens.head?, t.kind.beginsDefinition = true) {t : Token}
    (ht : t ∈ (tokens.map (Token.lower lines bytes)).head?) : t.kind.beginsDefinition = true := by
  obtain ⟨u, hu, hkind⟩ := hfirst
  rw [List.head?_map, hu] at ht
  cases ht
  exact hkind

/-! ### Both files in the whole -/

section Whole

variable {front back : Bytes} (hsize : (front ++ back).length < 2 ^ 31)
include hsize

theorem toNat_count_newline :
    (UInt32.ofNat (front.count newline)).toNat = front.count newline ∧
      front.count newline + back.count newline < 2 ^ 31 := by
  have hcount := List.count_le_length (a := newline) (l := front ++ back)
  rw [List.count_append] at hcount
  rw [UInt32.toNat_ofNat']
  exact ⟨Nat.mod_eq_of_lt (by omega), by omega⟩

theorem front_size : front.length < 2 ^ 31 ∧ back.length < 2 ^ 31 := by
  rw [List.length_append] at hsize
  exact ⟨by omega, by omega⟩

theorem sourceText?_front {item : List Token}
    (hitem : ∀ t ∈ item, t ∈ (ofSource front).tokens.dropLast) :
    sourceText? (front ++ back) (item.map (Token.lower 0 0)) = sourceText? front item := by
  have hlower : item.map (Token.lower 0 0) = item :=
    (List.map_congr_left fun t _ => t.lower_zero).trans (List.map_id item)
  rw [hlower]
  exact sourceText?_append fun t ht =>
    length_le_of_mem_tokens (front_size hsize).1 (List.mem_of_mem_dropLast (hitem t ht))

variable (hblank : [newline, newline] <:+ front) (j : Joins front back)
include hblank j

/-- The comments of the second file stand below every token of the first one. -/
theorem codesFor_front (first : UInt32) {u : Token}
    (hu : u ∈ (ofSource front).tokens.dropLast) (hkind : u.kind ≠ .dedent) :
    Noqa.codesFor (first + 0) (u.position.line + 0) (ofSource (front ++ back)).comments =
      Noqa.codesFor first u.position.line (ofSource front).comments := by
  have hlast := (EndsWithBlank.mk hblank (front_size hsize).1).line_le
    ((ofSource_tiles (front_size hsize).1).token_place u (List.mem_of_mem_dropLast hu)).2.1
    (j.offset_lt hu hkind)
  rw [UInt32.add_zero, UInt32.add_zero, j.comments_eq]
  refine Noqa.codesFor_append fun c hc => ?_
  obtain ⟨d, hd, rfl⟩ := List.mem_map.1 hc
  have hline := line_isAt ((ofSource_tiles (front_size hsize).2).comment_place d hd).2
  obtain ⟨hlines, hall⟩ := toNat_count_newline hsize
  rw [UInt32.lt_iff_toNat_lt, Comment.lower, Position.line_lower, UInt32.toNat_add, hlines]
  omega

/-- The comments of the first file stand above every token of the second one. -/
theorem codesFor_back {t u : Token} (ht : t ∈ (ofSource back).tokens.dropLast)
    (hu : u ∈ (ofSource back).tokens.dropLast) :
    Noqa.codesFor (t.position.line + UInt32.ofNat (front.count newline))
        (u.position.line + UInt32.ofNat (front.count newline))
        (ofSource (front ++ back)).comments =
      Noqa.codesFor t.position.line u.position.line (ofSource back).comments := by
  have hplace {v : Token} (hv : v ∈ (ofSource back).tokens.dropLast) :=
    line_isAt
      ((ofSource_tiles (front_size hsize).2).token_place v (List.mem_of_mem_dropLast hv)).2.1
  obtain ⟨hlines, hall⟩ := toNat_count_newline hsize
  have hfirst := hplace ht
  have hlast := hplace hu
  have hpos : 0 < t.position.line := UInt32.lt_iff_toNat_lt.2 hfirst.1
  rw [j.comments_eq, Noqa.codesFor_behind fun c hc => ?_]
  · refine Noqa.codesFor_lower hpos (by omega) (by omega) fun c hc => ?_
    have hline := line_isAt ((ofSource_tiles (front_size hsize).2).comment_place c hc).2
    omega
  · have habove := (EndsWithBlank.mk hblank (front_size hsize).1).comment_line_lt hc
    have hone : 1 ≤ t.position.line + UInt32.ofNat (front.count newline) := by
      rw [UInt32.le_iff_toNat_le, UInt32.toNat_add, UInt32.toNat_one]
      omega
    rw [UInt32.lt_iff_toNat_lt, UInt32.toNat_sub_of_le _ _ hone, UInt32.toNat_add,
      UInt32.toNat_one]
    omega

/-- The file in front as a part of the whole. -/
def frontEmbedding {f : Token → Token} (hf : MovesDedents f)
    (hfirst : ∃ t ∈ (ofSource back).tokens.dropLast.head?, t.kind.beginsDefinition = true) :
    Embedding (.ofSource front) (.ofSource (front ++ back)) (ofSource front).tokens.dropLast where
  move := f
  lines := 0
  bytes := 0
  behind := (ofSource back).tokens.dropLast.map
    (Token.lower (UInt32.ofNat (front.count newline)) front.length)
  kind_move := hf.kind_eq
  text_move := hf.text_eq
  move_eq _ ht := hf.eq_lower hfirst ht
  behind_head _ ht := beginsDefinition_lower hfirst ht
  dedent_text _ ht := (token_isSpelled ht).2
  name_text _ ht hkind := name_ne_nil ht hkind
  sourceText_eq _ hitem := sourceText?_front hsize hitem
  codes_eq t _ _ _ hu hkind := codesFor_front hsize hblank j t.position.line hu hkind

/-- The file behind as a part of the whole. -/
def backEmbedding :
    Embedding (.ofSource back) (.ofSource (front ++ back)) (ofSource back).tokens.dropLast where
  move := Token.lower (UInt32.ofNat (front.count newline)) front.length
  lines := UInt32.ofNat (front.count newline)
  bytes := front.length
  behind := []
  kind_move _ := rfl
  text_move _ := rfl
  move_eq _ _ := rfl
  behind_head _ ht := nomatch ht
  dedent_text _ ht := (token_isSpelled ht).2
  name_text _ ht hkind := name_ne_nil ht hkind
  sourceText_eq item _ := sourceText?_behind _ front item
  codes_eq _ ht _ _ hu _ := codesFor_back hsize hblank j ht hu

end Whole

end LexedSource

/-! ### The scan of the whole -/

namespace Scanner

theorem statements_nil {context : ScanContext} {c : TokenCursor} (h : c.after = []) :
    statements context c = {} := by
  rw [statements, if_pos (by rw [atEnd, h]; rfl)]

end Scanner

/-- What the statements of a source text contribute, behind its docstring. -/
def Findings.ofSource (source : Bytes) : Findings :=
  statements (.ofSource source) (behindDocstring (LexedSource.ofSource source).cursor)

/-- Behind the module come the declarations of the statements. -/
theorem ScannedSource.ofSource_findings (source : Bytes) :
    (ofSource source).declarations.tail = (Findings.ofSource source).declarations ∧
      (ofSource source).faults =
        (LexedSource.ofSource source).faults ++ (Findings.ofSource source).faults := by
  obtain ⟨hdeclarations, hfaults⟩ :=
    ofTokens_eq_statements (.ofSource source) (LexedSource.ofSource source).tokens
  exact ⟨hdeclarations, congrArg ((LexedSource.ofSource source).faults ++ ·) hfaults⟩

theorem Embedding.AtStart.behindDocstring {context context' : ScanContext} {tokens : List Token}
    {e : Embedding context context' tokens} {nest : Nat} {c c' : TokenCursor}
    (h : e.AtStart nest c c') :
    Along c c' (Scanner.behindDocstring c) (Scanner.behindDocstring c') ∧
      e.AtStart nest (Scanner.behindDocstring c) (Scanner.behindDocstring c') := by
  unfold Scanner.behindDocstring
  cases hdocstring : Scanner.docstring? c with
  | none =>
      rw [h.docstring?_none hdocstring]
      exact ⟨.refl c c', h⟩
  | some found =>
      obtain ⟨d', hdocstring', halong, hstart⟩ := h.docstring? hdocstring
      rw [hdocstring']
      exact ⟨halong, hstart⟩

/-- In front of other tokens a file is scanned as alone. -/
theorem Embedding.AtStart.statements_eq {context context' : ScanContext} {tokens : List Token}
    {e : Embedding context context' tokens} {c c' : TokenCursor} (h : e.AtStart 0 c c')
    (hfaults : (statements context (Scanner.behindDocstring c)).faults = []) :
    statements context' (Scanner.behindDocstring c') =
      (statements context (Scanner.behindDocstring c)).lower e.lines ++
        statements context' (c'.skip c.length) := by
  obtain ⟨halong, hstart⟩ := h.behindDocstring
  rw [e.statements_embed hfaults hstart, halong.skip_length]

namespace ScannedSource

theorem isAccepted_iff {source : Bytes} :
    (ofSource source).isAccepted = true ↔
      (LexedSource.ofSource source).faults = [] ∧ (Findings.ofSource source).faults = [] := by
  rw [isAccepted, (ofSource_findings source).2, List.isEmpty_iff, List.append_eq_nil_iff]

/-- Of an accepted file a statement begins at the first token. -/
theorem begins_ofSource {source : Bytes} (hfaults : (LexedSource.ofSource source).faults = [])
    (hcontained : (LexedSource.ofSource source).isContained = true) :
    Begins 0 (LexedSource.ofSource source).tokens.dropLast := by
  refine ⟨⟨0, false, Nat.le_refl 0, ?_⟩, ?_, hcontained⟩
  · rw [← LexedSource.kinds_eq]
    exact LexedSource.arranged source
  · have houtside := LexedSource.newlinesOutside_ofSource hfaults
    rw [LexedSource.kinds_eq, kindsAhead] at houtside
    exact newlinesOutside_front houtside

/-- A file that begins with a definition has no docstring. -/
theorem behindDocstring_of_beginsDefinition {source : Bytes}
    (hfirst : ∃ t ∈ (LexedSource.ofSource source).tokens.dropLast.head?,
      t.kind.beginsDefinition = true) :
    behindDocstring (LexedSource.ofSource source).cursor = (LexedSource.ofSource source).cursor := by
  obtain ⟨t, ht, hkind⟩ := hfirst
  obtain ⟨rest, hrest⟩ := List.head?_eq_some_iff.1 ht
  have hafter : (LexedSource.ofSource source).cursor.after = t :: rest := hrest
  have hstring : t.kind ≠ .string := fun heq => by
    rw [heq] at hkind
    cases hkind
  rw [behindDocstring, docstring?_cons hafter]
  simp [hstring]

section Embedded

/-! The tokens of the whole are those of both files, but for dedents at the end of the first one. -/

variable {front back : Bytes} (hsize : (front ++ back).length < 2 ^ 31)
  (hblank : [newline, newline] <:+ front) (j : LexedSource.Joins front back)
  {f : Token → Token} (hf : LexedSource.MovesDedents f)
  (hfirst : ∃ t ∈ (LexedSource.ofSource back).tokens.dropLast.head?, t.kind.beginsDefinition = true)
  (htokens : (LexedSource.ofSource (front ++ back)).tokens =
    (LexedSource.ofSource front).tokens.dropLast.map f ++
      (LexedSource.ofSource back).tokens.map
        (Token.lower (UInt32.ofNat (front.count newline)) front.length))

include hfirst htokens

theorem after_cursor_append :
    (LexedSource.ofSource (front ++ back)).cursor.after =
      (LexedSource.ofSource front).tokens.dropLast.map f ++
        (LexedSource.ofSource back).tokens.dropLast.map
          (Token.lower (UInt32.ofNat (front.count newline)) front.length) := by
  obtain ⟨t, ht, -⟩ := hfirst
  have hsome : (LexedSource.ofSource back).tokens ≠ [] :=
    List.ne_nil_of_mem (List.mem_of_mem_dropLast (List.mem_of_mem_head? ht))
  show (LexedSource.ofSource (front ++ back)).tokens.dropLast = _
  rw [htokens, List.dropLast_append_of_ne_nil (by simpa using hsome), ← List.map_dropLast]

/-- At the beginning of the whole the scanner is at that of the file in front. -/
theorem frontEmbedding_atStart (hfaults : (LexedSource.ofSource front).faults = [])
    (hcontained : (LexedSource.ofSource front).isContained = true) :
    (LexedSource.frontEmbedding hsize hblank j hf hfirst).AtStart 0
      (LexedSource.ofSource front).cursor (LexedSource.ofSource (front ++ back)).cursor :=
  ⟨⟨after_cursor_append hfirst htokens, ⟨[], rfl⟩, fun _ => id, fun _ h => nomatch h⟩,
    fun _ => begins_ofSource hfaults hcontained⟩

/-- Behind the file in front it is at the beginning of the other one. -/
theorem backEmbedding_atStart :
    (LexedSource.backEmbedding hsize hblank j).AtStart 0 (LexedSource.ofSource back).cursor
      ((LexedSource.ofSource (front ++ back)).cursor.skip
        (LexedSource.ofSource front).cursor.length) := by
  refine ⟨⟨?_, ⟨_, rfl⟩, fun _ => id, fun _ h => nomatch h⟩, fun h => absurd rfl h⟩
  have hlength : ((LexedSource.ofSource front).tokens.dropLast.map f).length =
      (LexedSource.ofSource front).cursor.length := List.length_map _
  rw [after_skip, after_cursor_append hfirst htokens, List.drop_left' hlength]
  exact (List.append_nil _).symm

end Embedded

section Joined

variable {front back : Bytes} (hsize : (front ++ back).length < 2 ^ 31)
  (hfront : (ofSource front).isAccepted = true) (hback : (ofSource back).isAccepted = true)
  (hblank : [newline, newline] <:+ front)
  (hfirst : ∃ t ∈ (LexedSource.ofSource back).tokens.head?, t.kind.beginsDefinition = true)
  (hcontained : (LexedSource.ofSource front).isContained = true)
include hsize hfront hback hblank hfirst hcontained

/-- The whole has no faults of the lexer, and the scanner finds in it what it finds in both files. -/
theorem findings_append :
    (LexedSource.ofSource (front ++ back)).faults = [] ∧
      Findings.ofSource (front ++ back) = (Findings.ofSource front).lower 0 ++
        (Findings.ofSource back).lower (UInt32.ofNat (front.count newline)) := by
  rw [isAccepted_iff] at hfront hback
  obtain ⟨t, ht, hkind⟩ := hfirst
  have hne (kind : TokenKind) (h : kind.beginsDefinition = false) : t.kind ≠ kind := fun heq => by
    rw [heq, h] at hkind
    cases hkind
  have hahead : ∃ t ∈ (LexedSource.ofSource back).tokens.dropLast.head?,
      t.kind.beginsDefinition = true :=
    ⟨t, LexedSource.head?_dropLast_tokens ht (hne .eof rfl), hkind⟩
  obtain ⟨j⟩ := LexedSource.nonempty_joins hfront.1 hblank fun u hu => by
    cases Option.some.inj (ht.symm.trans hu)
    exact ⟨hne .indent rfl, hne .eof rfl⟩
  obtain ⟨f, hf, htokens⟩ := j.exists_tokens_eq
  have hstart := frontEmbedding_atStart hsize hblank j hf hahead htokens hfront.1 hcontained
  have hbehind := backEmbedding_atStart hsize hblank j hahead htokens
  have hend : (((LexedSource.ofSource (front ++ back)).cursor.skip
      (LexedSource.ofSource front).cursor.length).skip
        (LexedSource.ofSource back).cursor.length).after = [] := by
    rw [after_skip, hbehind.after_eq, TokenCursor.length]
    exact List.drop_eq_nil_of_le (by simp [LexedSource.backEmbedding])
  refine ⟨by rw [j.faults_eq, hfront.1, hback.1]; rfl, ?_⟩
  have hfound : Findings.ofSource back =
      statements (.ofSource back) (LexedSource.ofSource back).cursor := by
    rw [Findings.ofSource, behindDocstring_of_beginsDefinition hahead]
  rw [hfound] at hback ⊢
  have hwhole := hstart.statements_eq hfront.2
  rwa [Embedding.statements_embed hback.2 hbehind, statements_nil hend,
    Findings.append_empty] at hwhole

/-- **One file behind another.**  Two accepted files of which the first ends with an empty line and
the second begins with a definition are accepted as one file, which declares what the first declares,
and then, further down, what the second declares. -/
theorem ofSource_append :
    (ofSource (front ++ back)).isAccepted = true ∧
      (ofSource (front ++ back)).declarations.tail = (ofSource front).declarations.tail ++
        (ofSource back).declarations.tail.map
          (Declaration.lower (UInt32.ofNat (front.count newline))) := by
  obtain ⟨hlexed, hfound⟩ := findings_append hsize hfront hback hblank hfirst hcontained
  rw [isAccepted_iff] at hfront hback ⊢
  have hsame : (ofSource front).declarations.tail.map (Declaration.lower 0) =
      (ofSource front).declarations.tail :=
    (List.map_congr_left fun d _ => d.lower_zero).trans (List.map_id _)
  refine ⟨⟨hlexed, ?_⟩, ?_⟩
  · rw [hfound, Findings.faults_append, Findings.lower, Findings.lower, hfront.2, hback.2]
    rfl
  · rw [(ofSource_findings (front ++ back)).1, hfound, Findings.declarations_append, Findings.lower,
      Findings.lower, ← (ofSource_findings front).1, ← (ofSource_findings back).1, hsame]

end Joined

/-- A class with a decorated method. -/
def sampleFront : Bytes := ascii "class A:\n @p\n def f(self): pass\n\n"

/-- A function with a docstring, and a suppression comment above it. -/
def sampleBack : Bytes := ascii "# noqa: B\ndef g(a):\n 'D'\n"

theorem ofSource_append_sampleFiles :
    ((sampleFront ++ sampleBack).length < 2 ^ 31 ∧ (ofSource sampleFront).isAccepted = true ∧
      (ofSource sampleBack).isAccepted = true ∧ [newline, newline] <:+ sampleFront ∧
      (∃ t ∈ (LexedSource.ofSource sampleBack).tokens.head?, t.kind.beginsDefinition = true) ∧
      (LexedSource.ofSource sampleFront).isContained = true) ∧
    (ofSource (sampleFront ++ sampleBack)).isAccepted = true ∧
      (ofSource (sampleFront ++ sampleBack)).declarations.tail =
        (ofSource sampleFront).declarations.tail ++ (ofSource sampleBack).declarations.tail.map
          (Declaration.lower (UInt32.ofNat (sampleFront.count newline))) := by
  have hsize : (sampleFront ++ sampleBack).length < 2 ^ 31 := by cbv
  have hfront : (ofSource sampleFront).isAccepted = true := by cbv
  have hback : (ofSource sampleBack).isAccepted = true := by cbv
  have hblank : [newline, newline] <:+ sampleFront := by decide
  have hany : (LexedSource.ofSource sampleBack).tokens.head?.any
      (fun t => t.kind.beginsDefinition) = true := by cbv
  have hfirst : ∃ t ∈ (LexedSource.ofSource sampleBack).tokens.head?,
      t.kind.beginsDefinition = true := by simpa [Option.any_eq_true] using hany
  have hcontained : (LexedSource.ofSource sampleFront).isContained = true := by cbv
  exact ⟨⟨hsize, hfront, hback, hblank, hfirst, hcontained⟩,
    ofSource_append hsize hfront hback hblank hfirst hcontained⟩

/-- A class whose body ends with a decorator that has no name. -/
def openDecorator : Bytes := ascii "class A:\n    @(x)\n\n"

/-- A function. -/
def loneFunction : Bytes := ascii "def f():\n    pass\n"

/-- The decorator takes in the end of its block and the function behind it, so that the function is
lost. -/
theorem declarations_openDecorator :
    ((openDecorator ++ loneFunction).length < 2 ^ 31 ∧ (ofSource openDecorator).isAccepted = true ∧
      (ofSource loneFunction).isAccepted = true ∧ [newline, newline] <:+ openDecorator ∧
      (LexedSource.ofSource loneFunction).tokens.head?.map (fun t => (t.kind, t.position)) =
        some (.keyword .kDef, ⟨1, 1⟩)) ∧
    (ofSource (openDecorator ++ loneFunction)).declarations.tail ≠
      (ofSource openDecorator).declarations.tail ++ (ofSource loneFunction).declarations.tail.map
        (Declaration.lower (UInt32.ofNat (openDecorator.count newline))) := by
  have hlengths : (ofSource (openDecorator ++ loneFunction)).declarations.tail.length = 1 ∧
      (ofSource openDecorator).declarations.tail.length = 1 ∧
        (ofSource loneFunction).declarations.tail.length = 1 := by
    refine ⟨by cbv, by cbv, by cbv⟩
  refine ⟨⟨by cbv, by cbv, by cbv, by decide, by cbv⟩, fun heq => ?_⟩
  have hlength := congrArg List.length heq
  rw [List.length_append, List.length_map] at hlength
  omega

end ScannedSource

end DocLint
