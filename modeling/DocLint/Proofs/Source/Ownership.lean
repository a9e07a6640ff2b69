import DocLint.Proofs.Source.CommentPlace
import DocLint.Proofs.Source.Sites

/-!
# The owners of comments

A comment that suppresses codes belongs to the declaration whose header it trails or stands above.
The headers of different declarations are on different lines, so that no comment belongs to two of
them.  The module alone is different: where no docstring makes up its header, this is the line on
which the tokens begin, and that may be the line of another header.

* `codesFor_eq_filter`: the comments of a header, as those with a property.
* `Holds.exists_headers`: the headers of the declarations in a file, one below the other.
* `SharesOut`, `AreApart.sharesOut`: no comment belongs to two declarations.
* `ofSource_sharesOut`: so it is in every file, but for the module.
-/

namespace DocLint

open Scanner Bytes

/-! ### Comments -/

/-- The comments of a source text stand on lines one below the other, or on the same ones. -/
theorem LexedSource.pairwise_comments {source : Bytes} (hsize : source.length < 2 ^ 31) :
    (ofSource source).comments.Pairwise fun b c => b.position.line ≤ c.position.line :=
  comments_sorted (count_newline_lt hsize)

/-! ### The comments of a header -/

/-- The first and the last line of a header. -/
structure HeaderLines where
  first : UInt32
  last : UInt32
  first_le : first ≤ last

/-- The comment belongs to the declaration with the header. -/
def HeaderLines.owns (w : HeaderLines) (c : Comment) : Bool :=
  w.first - 1 ≤ c.position.line && c.position.line ≤ w.last && Noqa.isAttached w.first c

section Sorted

variable {α : Type} {xs : List α} {p : α → Bool}

/-- Where the property does not come back, the elements up to where it ends are those that have it. -/
theorem takeWhile_eq_filter (h : xs.Pairwise fun a b => p b = true → p a = true) :
    xs.takeWhile p = xs.filter p := by
  induction h with
  | nil => rfl
  | @cons a xs hall _ ih =>
      by_cases ha : p a = true
      · rw [List.takeWhile_cons_of_pos ha, List.filter_cons_of_pos ha, ih]
      · have hnone : (a :: xs).filter p = [] := by
          rw [List.filter_cons_of_neg ha, List.filter_eq_nil_iff]
          exact fun b hb hpb => ha (hall b hb hpb)
        rw [List.takeWhile_cons_of_neg ha, hnone]

/-- And the elements from there on are those that do not have it. -/
theorem dropWhile_eq_filter (h : xs.Pairwise fun a b => p b = true → p a = true) :
    xs.dropWhile p = xs.filter fun x => !p x := by
  induction h with
  | nil => rfl
  | @cons a xs hall _ ih =>
      by_cases ha : p a = true
      · rw [List.dropWhile_cons_of_pos ha, List.filter_cons_of_neg (by simp [ha]), ih]
      · have hall' : (a :: xs).filter (fun x => !p x) = a :: xs := by
          refine List.filter_eq_self.2 (List.forall_mem_cons.2 ⟨by simp [ha], fun b hb => ?_⟩)
          simpa using fun hpb => ha (hall b hb hpb)
        rw [List.dropWhile_cons_of_neg ha, hall']

end Sorted

variable {comments : List Comment}

/-- The codes of a header are those of the comments that belong to it. -/
theorem Noqa.codesFor_eq_filter
    (h : comments.Pairwise fun b c => b.position.line ≤ c.position.line) (w : HeaderLines) :
    codesFor w.first w.last comments = (comments.filter w.owns).flatMap fun c => codes c.text := by
  have hbelow : comments.dropWhile (fun c => decide (c.position.line < w.first - 1)) =
      comments.filter fun c => !decide (c.position.line < w.first - 1) := by
    refine dropWhile_eq_filter (h.imp fun {b c} hbc hc => ?_)
    rw [decide_eq_true_iff] at hc ⊢
    exact UInt32.lt_of_le_of_lt hbc hc
  have habove (p : Comment → Bool) :
      (comments.filter p).takeWhile (fun c => decide (c.position.line ≤ w.last)) =
        (comments.filter p).filter fun c => decide (c.position.line ≤ w.last) := by
    refine takeWhile_eq_filter ((h.filter p).imp fun {b c} hbc hc => ?_)
    rw [decide_eq_true_iff] at hc ⊢
    exact UInt32.le_trans hbc hc
  rw [codesFor, window, hbelow, habove, List.filter_filter, List.filter_filter]
  refine congrArg (List.flatMap fun c : Comment => codes c.text) (List.filter_congr fun c _ => ?_)
  rw [HeaderLines.owns, ← decide_not, decide_eq_decide.2 UInt32.not_lt]
  ac_rfl

/-- No comment belongs to two headers one below the other. -/
theorem HeaderLines.not_owns_of_lt {v w : HeaderLines} (hbelow : v.last < w.first) {c : Comment}
    (h : v.owns c = true) : w.owns c = false := by
  have hlt : v.first < w.first := UInt32.lt_of_le_of_lt v.first_le hbelow
  simp only [owns, Bool.and_eq_true, decide_eq_true_eq, Noqa.isAttached] at h
  obtain ⟨⟨-, hlast⟩, hattached⟩ := h
  have hnot : Noqa.isAttached w.first c = false := by
    unfold Noqa.isAttached
    cases hown : c.ownLine with
    | true =>
        rw [hown, if_pos rfl, beq_iff_eq] at hattached
        simpa [hattached] using UInt32.ne_of_lt hlt
    | false =>
        -- Behind code, the comment is on a line of the upper header.
        simpa using UInt32.lt_of_le_of_lt hlast hbelow
  rw [owns, hnot, Bool.and_false]

/-! ### The headers of declarations -/

/-- The declaration has the header, and the comments that belong to it. -/
structure HasHeader (comments : List Comment) (d : Declaration) (w : HeaderLines) : Prop where
  first_eq : d.span.start.line = w.first
  noqa_eq : d.noqa = Noqa.codesFor w.first w.last comments

/-- The header begins on the line of something that is written among the tokens, and ends on a line
that the tokens end, if others follow. -/
def HeaderLines.IsWithin (run rest : List Token) (w : HeaderLines) : Prop :=
  (∃ t ∈ run, t.kind.isWritten = true ∧ w.first = t.position.line) ∧
    ((∃ t ∈ run, t.kind = .newline ∧ w.last ≤ t.position.line) ∨ rest = [])

namespace HeaderLines.IsWithin

variable {front run more rest : List Token} {w : HeaderLines}

theorem append_right (h : w.IsWithin run (more ++ rest)) : w.IsWithin (run ++ more) rest :=
  ⟨h.1.imp fun _ ht => ht.imp_left (List.mem_append_left more),
    h.2.imp (fun ⟨t, ht, hend⟩ => ⟨t, List.mem_append_left more ht, hend⟩)
      fun hrest => (List.append_eq_nil_iff.1 hrest).2⟩

theorem append_left (h : w.IsWithin run rest) (front : List Token) : w.IsWithin (front ++ run) rest :=
  ⟨h.1.imp fun _ ht => ht.imp_left (List.mem_append_right front),
    h.2.imp_left fun ⟨t, ht, hend⟩ => ⟨t, List.mem_append_right front ht, hend⟩⟩

end HeaderLines.IsWithin

/-- Headers stand one below the other. -/
def AreApart (ws : List HeaderLines) : Prop := ws.Pairwise fun v w => v.last < w.first

section Sites

variable {source : Bytes} (hsize : source.length < 2 ^ 31)
include hsize

/-- A header within some tokens stands above those within the tokens behind them. -/
theorem HeaderLines.IsWithin.last_lt {run more rest : List Token}
    (hs : Standing source (run ++ more)) {v w : HeaderLines} (hv : v.IsWithin run (more ++ rest))
    (hw : w.IsWithin more rest) : v.last < w.first := by
  obtain ⟨u, hu, hwritten, hfirst⟩ := hw.1
  rcases hv.2 with ⟨t, ht, hkind, hlast⟩ | hnone
  · rw [hfirst]
    exact UInt32.lt_of_le_of_lt hlast (hs.line_lt hsize ht hu hkind hwritten)
  · rw [(List.append_eq_nil_iff.1 hnone).1] at hu
    cases hu

/-- The header of a definition. -/
theorem Defines.exists_header {s : DefinitionTokens} {d : Declaration} (h : Defines comments s d)
    (hs : Standing source s.tokens) {rest : List Token} (hends : ClosesLine s.suite rest) :
    ∃ w : HeaderLines, HasHeader comments d w ∧ w.IsWithin s.tokens rest ∧
      w.last = s.header.colon.position.line := by
  obtain ⟨front, htokens⟩ := s.exists_tokens_eq
  have hmem : s.first ∈ s.tokens := by simp [htokens]
  rw [htokens] at hs
  refine ⟨⟨s.first.position.line, s.header.colon.position.line,
      hs.line_le hsize (by simp) List.mem_cons_self⟩, ⟨?_, ?_⟩,
    ⟨⟨s.first, hmem, h.first_kind, rfl⟩, ?_⟩, rfl⟩
  · rw [h.start_eq]
  · rw [h.noqa_eq, h.start_eq]
  · refine hends.imp_left fun ⟨t, ht, hkind⟩ => ⟨t, by simp [htokens, ht], hkind, ?_⟩
    exact hs.right.uncons.line_le hsize (List.mem_singleton_self _) ht

/-- The header of a constant. -/
theorem Assigns.exists_header {s : ConstantTokens} {d : Declaration} (h : Assigns comments s d)
    (hs : Standing source s.tokens) (rest : List Token) :
    ∃ w : HeaderLines, HasHeader comments d w ∧ w.IsWithin s.tokens rest := by
  have hname : s.name.kind.isWritten = true := by rw [h.name_kind]; rfl
  have hmem : s.name ∈ s.tokens ∧ s.newline ∈ s.tokens := by simp [ConstantTokens.tokens]
  refine ⟨⟨s.name.position.line, s.newline.position.line,
      hs.line_le hsize List.mem_cons_self List.mem_cons_self⟩, ⟨?_, ?_⟩,
    ⟨⟨s.name, hmem.1, hname, rfl⟩, .inl ⟨s.newline, hmem.2, h.newline_kind, UInt32.le_refl _⟩⟩⟩
  · rw [h.start_eq]
  · rw [h.noqa_eq, h.start_eq]

/-- Headers of declarations below the header of a class. -/
theorem DeclaresBelow.lt_first {s : DefinitionTokens} {methods : List Declaration}
    {ws : List HeaderLines} (h : DeclaresBelow s.suite methods) (hs : Standing source s.tokens)
    {rest : List Token} (hheaders : List.Forall₂ (HasHeader comments) methods ws)
    (hwithin : ∀ w ∈ ws, w.IsWithin s.suite rest) :
    ∀ w ∈ ws, s.header.colon.position.line < w.first := by
  intro w hw
  rcases h with rfl | ⟨mark, hmark, hkind⟩
  · cases hheaders
    cases hw
  · obtain ⟨behind, hsuite⟩ := List.head?_eq_some_iff.1 hmark
    have hsplit : s.tokens = (s.front ++ s.header.word :: s.header.name :: s.header.middle) ++
        [s.header.colon] ++ mark :: behind := by
      simp [DefinitionTokens.tokens, HeaderTokens.tokens, hsuite]
    rw [hsplit] at hs
    obtain ⟨u, hu, hwritten, hfirst⟩ := (hwithin w hw).1
    rw [hsuite] at hu
    have hle := hs.line_le hsize (t := s.header.colon) (u := mark) (by simp) List.mem_cons_self
    have hlt : mark.position.line < u.position.line := by
      rcases List.mem_cons.1 hu with rfl | hu
      · rw [hkind] at hwritten
        cases hwritten
      · exact hs.right.uncons.line_lt hsize (List.mem_singleton_self _) hu hkind hwritten
    rw [hfirst]
    exact UInt32.lt_of_le_of_lt hle hlt

/-- The declarations that consecutive tokens hold have headers within the tokens, one below the
other. -/
theorem Holds.exists_headers {kind : ScopeKind} {run rest : List Token} {ds : List Declaration}
    (h : Holds comments kind run rest ds) (hs : Standing source run) :
    ∃ ws, List.Forall₂ (HasHeader comments) ds ws ∧ AreApart ws ∧
      ∀ w ∈ ws, w.IsWithin run rest := by
  induction h with
  | nothing => exact ⟨[], .nil, .nil, by simp⟩
  | append _ _ ihfirst ihsecond =>
      obtain ⟨vs, hvs, hapart, hwithin⟩ := ihfirst hs.left
      obtain ⟨ws, hws, hapart', hwithin'⟩ := ihsecond hs.right
      refine ⟨vs ++ ws, List.rel_append hvs hws, List.pairwise_append.2 ⟨hapart, hapart', ?_⟩,
        List.forall_mem_append.2 ⟨fun v hv => ?_, fun w hw => ?_⟩⟩
      · exact fun v hv w hw => (hwithin v hv).last_lt hsize hs (hwithin' w hw)
      · exact (hwithin v hv).append_right
      · exact (hwithin' w hw).append_left _
  | function defines _ ends =>
      obtain ⟨w, hheader, hwithin, -⟩ := defines.exists_header hsize hs ends
      exact ⟨[w], .cons hheader .nil, List.pairwise_singleton _ _, by simpa using hwithin⟩
  | classDef defines _ ends below _ ih =>
      obtain ⟨w, hheader, hwithin, hlast⟩ := defines.exists_header hsize hs ends
      obtain ⟨ws, hws, hapart, hmethods⟩ := ih hs.right.right
      refine ⟨w :: ws, .cons hheader hws, List.pairwise_cons.2 ⟨fun v hv => ?_, hapart⟩,
        List.forall_mem_cons.2 ⟨hwithin, fun v hv => ?_⟩⟩
      · rw [hlast]
        exact below.lt_first hsize hs hws hmethods v hv
      · exact ((hmethods v hv).append_left _).append_left _
  | constant assigns =>
      obtain ⟨w, hheader, hwithin⟩ := assigns.exists_header hsize hs _
      exact ⟨[w], .cons hheader .nil, List.pairwise_singleton _ _, by simpa using hwithin⟩

end Sites

/-! ### Sharing out -/

/-- The declaration has the codes of the comments that belong to the header, which begins where the
declaration does; that of the module may begin further down. -/
structure Heeds (comments : List Comment) (d : Declaration) (w : HeaderLines) : Prop where
  first_eq : d.form = .moduleDecl ∨ d.span.start.line = w.first
  noqa_eq : d.noqa = (comments.filter w.owns).flatMap fun c => Noqa.codes c.text

/-- The declarations have headers such that no comment belongs to two of them. -/
def SharesOut (comments : List Comment) (ds : List Declaration) : Prop :=
  ∃ ws, List.Forall₂ (Heeds comments) ds ws ∧
    ws.Pairwise fun v w => ∀ c ∈ comments, v.owns c = true → w.owns c = false

theorem HasHeader.heeds {d : Declaration} {w : HeaderLines} (h : HasHeader comments d w)
    (hsorted : comments.Pairwise fun b c => b.position.line ≤ c.position.line) :
    Heeds comments d w :=
  ⟨.inr h.first_eq, h.noqa_eq.trans (Noqa.codesFor_eq_filter hsorted w)⟩

/-- Headers one below the other share out the comments. -/
theorem AreApart.sharesOut {ds : List Declaration} {ws : List HeaderLines} (hapart : AreApart ws)
    (hheeds : List.Forall₂ (Heeds comments) ds ws) : SharesOut comments ds :=
  ⟨ws, hheeds, hapart.imp fun hbelow _ _ => HeaderLines.not_owns_of_lt hbelow⟩

/-! ### Source texts -/

/-- The module has a header, from its first line to the last one. -/
theorem IsModule.exists_header {source : Bytes} {tokens : List Token} {file : Declaration}
    (h : IsModule comments tokens file) (hs : Standing source tokens)
    (hsize : source.length < 2 ^ 31) :
    ∃ w : HeaderLines, w.last = lastModuleLine tokens file.docstring ∧
      file.noqa = Noqa.codesFor w.first w.last comments := by
  have hle : (TokenCursor.ofTokens tokens).position.line ≤ lastModuleLine tokens file.docstring := by
    cases hdocstring : file.docstring with
    | none => exact UInt32.le_refl _
    | some literal =>
        obtain ⟨t, ht, -, rfl, hposition⟩ := h.docstring literal hdocstring
        rw [hposition]
        exact hs.line_le_stop (count_newline_lt hsize) (List.dropLast_subset _ ht)
  exact ⟨⟨_, _, hle⟩, rfl, h.noqa_eq⟩

namespace ScannedSource

/-- In every source text no comment belongs to two functions, methods, classes or constants; nor does
one belong to such a declaration and to the module, if all of them begin below the last line of the
module's header. -/
theorem ofSource_sharesOut {source : Bytes} (hsize : source.length < 2 ^ 31) :
    ∃ file ds, (ofSource source).declarations = file :: ds ∧ file.form = .moduleDecl ∧
      SharesOut (LexedSource.ofSource source).comments ds ∧
      ((∀ d ∈ ds, lastModuleLine (LexedSource.ofSource source).tokens file.docstring <
          d.span.start.line) →
        SharesOut (LexedSource.ofSource source).comments (file :: ds)) := by
  have hs := LexedSource.ofSource_standing source
  have hsorted := LexedSource.pairwise_comments hsize
  obtain ⟨file, ds, run, rest, hdeclarations, hfile, hholds, hrun⟩ := ofTokens_holds
    ⟨source, (LexedSource.ofSource source).comments⟩ (LexedSource.ofSource source).tokens
  obtain ⟨ws, hheaders, hapart, -⟩ := hholds.exists_headers hsize
    (hs.sublist (hrun.sublist.trans (List.dropLast_sublist _)))
  have hheeds := hheaders.imp fun _ _ hheader => hheader.heeds hsorted
  refine ⟨file, ds, hdeclarations, hfile.form_eq, hapart.sharesOut hheeds, fun hbelow => ?_⟩
  obtain ⟨w, hlast, hnoqa⟩ := hfile.exists_header hs hsize
  have hfileHeeds : Heeds (LexedSource.ofSource source).comments file w :=
    ⟨.inl hfile.form_eq, hnoqa.trans (Noqa.codesFor_eq_filter hsorted w)⟩
  refine AreApart.sharesOut (List.pairwise_cons.2 ⟨fun v hv => ?_, hapart⟩)
    (.cons hfileHeeds hheeds)
  obtain ⟨i, hi, rfl⟩ := List.getElem_of_mem hv
  obtain ⟨hlength, hget⟩ := List.forall₂_iff_get.1 hheaders
  have hi' : i < ds.length := hlength ▸ hi
  have hfirst : ds[i].span.start.line = ws[i].first := (hget i hi' hi).first_eq
  rw [hlast, ← hfirst]
  exact hbelow _ (List.getElem_mem hi')

/-- An import, and a function, with comments behind them and above. -/
def importingSource : Bytes :=
  ascii "import os  # noqa: A\n# noqa: D\ndef f():  # noqa: E\n    pass\n"

theorem ofSource_sharesOut_importingSource :
    (importingSource.length < 2 ^ 31 ∧
      (ofSource importingSource).declarations.map
          (fun d => (d.span.start.line, d.docstring, d.noqa)) =
        [(1, none, [ascii "A"]), (3, none, [ascii "D", ascii "E"])]) ∧
    SharesOut (LexedSource.ofSource importingSource).comments
      (ofSource importingSource).declarations := by
  have hsize : importingSource.length < 2 ^ 31 := by cbv
  have hscan : (ofSource importingSource).declarations.map
      (fun d => (d.span.start.line, d.docstring, d.noqa)) =
        [(1, none, [ascii "A"]), (3, none, [ascii "D", ascii "E"])] := by cbv
  refine ⟨⟨hsize, hscan⟩, ?_⟩
  obtain ⟨file, ds, hdeclarations, -, -, hall⟩ := ofSource_sharesOut hsize
  rw [hdeclarations, List.map_cons, List.cons_eq_cons] at hscan
  obtain ⟨hfile, hds⟩ := hscan
  have hdocstring : file.docstring = none := congrArg (fun line => line.2.1) hfile
  have hlast : lastModuleLine (LexedSource.ofSource importingSource).tokens none = 1 := by cbv
  rw [hdeclarations]
  refine hall fun d hd => ?_
  have hmem := List.mem_map_of_mem
    (f := fun d : Declaration => (d.span.start.line, d.docstring, d.noqa)) hd
  rw [hds] at hmem
  have hline : d.span.start.line = 3 := congrArg Prod.fst (List.mem_singleton.1 hmem)
  rw [hdocstring, hlast, hline]
  decide

/-- A function with a comment behind its header, and nothing above. -/
def leadingFunction : Bytes := ascii "def f():  # noqa: GL08\n    pass\n"

/-- The comment belongs to the function, and to the module too. -/
theorem not_sharesOut_leadingFunction :
    (leadingFunction.length < 2 ^ 31 ∧ (ofSource leadingFunction).isAccepted = true) ∧
    ¬ SharesOut (LexedSource.ofSource leadingFunction).comments
      (ofSource leadingFunction).declarations := by
  refine ⟨⟨by cbv, by cbv⟩, fun ⟨ws, hheeds, hshared⟩ => ?_⟩
  have hnoqa : (ofSource leadingFunction).declarations.map Declaration.noqa =
      [[ascii "GL08"], [ascii "GL08"]] := by cbv
  have hlength : (LexedSource.ofSource leadingFunction).comments.length = 1 := by cbv
  obtain ⟨c, hcomments⟩ := List.length_eq_one_iff.1 hlength
  rw [hcomments] at hheeds hshared
  -- Who has a code has the only comment.
  have howns {d : Declaration} {w : HeaderLines} (h : Heeds [c] d w) (hd : d.noqa ≠ []) :
      w.owns c = true := by
    by_contra hnot
    exact hd (by rw [h.noqa_eq, List.filter_cons_of_neg hnot]; rfl)
  obtain ⟨file, f, hdeclarations⟩ :=
    List.length_eq_two.1 ((List.length_map Declaration.noqa).symm.trans (congrArg List.length hnoqa))
  rw [hdeclarations, List.map_cons, List.map_singleton, List.cons_eq_cons,
    List.singleton_inj] at hnoqa
  rw [hdeclarations] at hheeds
  obtain _ | ⟨hfile, _ | ⟨hf, _⟩⟩ := hheeds
  have hnot := List.rel_of_pairwise_cons hshared List.mem_cons_self c List.mem_cons_self
    (howns hfile (by simp [hnoqa.1]))
  rw [howns hf (by simp [hnoqa.2])] at hnot
  cases hnot

end ScannedSource

end DocLint
