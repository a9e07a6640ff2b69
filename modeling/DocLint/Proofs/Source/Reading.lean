import DocLint.Proofs.Grammar.Findings
import DocLint.Proofs.Source.ScanCases
import Mathlib

/-!
# Reading on

The scanner reads the tokens of a file one stretch after the other.  What it makes of a stretch, a
docstring, a parameter or a header, is made of the tokens of the stretch.

* `TokenCursor.Reads`: what a cursor reads on its way to another one.
* `docstring?_reads`, `statementLine_reads`: single statements.
* `functionHeader_reads`, `classHeader_reads`: headers, and the tokens that they consist of.
-/

namespace DocLint

open Scanner

/-! ### Reading on -/

namespace TokenCursor

/-- Where some token is seen, it is the first one ahead. -/
theorem exists_of_isAt {c : TokenCursor} {kind : TokenKind} (h : c.isAt kind = true)
    (hkind : kind ≠ .eof) : ∃ t rest, c.after = t :: rest ∧ c.position = t.position := by
  have hpos := length_pos_of_isAt h hkind
  obtain ⟨t, rest, hafter⟩ := List.exists_cons_of_length_pos hpos
  exact ⟨t, rest, hafter, by rw [position, hafter]⟩

/-- Reading some tokens leads from the one cursor to the other. -/
structure Reads (c : TokenCursor) (run : List Token) (d : TokenCursor) : Prop where
  after_eq : c.after = run ++ d.after
  before_eq : d.before = run.reverse ++ c.before

namespace Reads

variable {c d e : TokenCursor} {run more : List Token}

theorem refl (c : TokenCursor) : c.Reads [] c := ⟨rfl, rfl⟩

theorem trans (h : c.Reads run d) (hmore : d.Reads more e) : c.Reads (run ++ more) e := by
  refine ⟨?_, ?_⟩
  · rw [h.after_eq, hmore.after_eq, List.append_assoc]
  · rw [hmore.before_eq, h.before_eq, List.reverse_append, List.append_assoc]

theorem skip (c : TokenCursor) (n : Nat) : c.Reads (c.after.take n) (c.skip n) :=
  ⟨(List.take_append_drop n c.after).symm, rfl⟩

/-- A token that is there. -/
theorem advance {t : Token} {rest : List Token} (h : c.after = t :: rest) :
    c.Reads [t] c.advance := by
  have hskip := skip c 1
  rwa [h] at hskip

theorem advance_of_isAt {kind : TokenKind} (h : c.isAt kind = true) (hkind : kind ≠ .eof) :
    ∃ t, t.kind = kind ∧ c.position = t.position ∧ c.Reads [t] c.advance := by
  obtain ⟨t, rest, hafter, hposition⟩ := exists_of_isAt h hkind
  refine ⟨t, ?_, hposition, advance hafter⟩
  rwa [isAt_eq hafter, beq_iff_eq] at h

/-- A token of some kind, if it is there. -/
theorem skipIf (c : TokenCursor) (kind : TokenKind) : ∃ run, c.Reads run (c.skipIf kind) := by
  unfold TokenCursor.skipIf
  split
  · exact ⟨_, skip c 1⟩
  · exact ⟨[], refl c⟩

/-- Behind some solid tokens the last one of them is the last one so far. -/
theorem lastStop_eq (h : c.Reads run d) (hsolid : ∃ t ∈ run, t.isSolid = true) :
    d.lastStop = fileStop run := by
  have hfind : (run.reverse.find? Token.isSolid).isSome = true := by simpa using hsolid
  obtain ⟨last, hlast⟩ := Option.isSome_iff_exists.1 hfind
  rw [lastStop, h.before_eq, List.find?_append, fileStop, hlast]
  rfl

end Reads

end TokenCursor

open TokenCursor

/-- The literal is that of a string token. -/
def DocLiteral.IsFrom (tokens : List Token) (literal : DocLiteral) : Prop :=
  ∃ t ∈ tokens, t.kind = .string ∧ literal = .ofText t.text t.position

theorem DocLiteral.IsFrom.mono {literal : DocLiteral} {tokens more : List Token}
    (h : literal.IsFrom tokens) (hmore : tokens ⊆ more) : literal.IsFrom more := by
  obtain ⟨t, ht, hliteral⟩ := h
  exact ⟨t, hmore ht, hliteral⟩

/-- The parameter takes up an item of the tokens. -/
def Parameter.IsItemOf (tokens : List Token) (p : Parameter) : Prop :=
  ∃ item, item ≠ [] ∧ item <:+: tokens ∧ p.span = itemSpan item

theorem Parameter.IsItemOf.mono {p : Parameter} {tokens more : List Token} (h : p.IsItemOf tokens)
    (hmore : tokens <:+: more) : p.IsItemOf more := by
  obtain ⟨item, hne, hitem, hspan⟩ := h
  exact ⟨item, hne, hitem.trans hmore, hspan⟩

/-- The tokens end a line, or the file ends behind them. -/
def ClosesLine (run rest : List Token) : Prop := (∃ t ∈ run, t.kind = .newline) ∨ rest = []

theorem ClosesLine.reads {run more : List Token} {c d : TokenCursor} (h : ClosesLine run c.after)
    (hreads : c.Reads more d) : ClosesLine (run ++ more) d.after := by
  rcases h with ⟨t, ht, hkind⟩ | hrest
  · exact .inl ⟨t, List.mem_append_left more ht, hkind⟩
  · rw [hreads.after_eq] at hrest
    exact .inr (List.append_eq_nil_iff.1 hrest).2

theorem ClosesLine.prepend {run rest : List Token} (h : ClosesLine run rest) (front : List Token) :
    ClosesLine (front ++ run) rest :=
  h.imp_left fun ⟨t, ht, hkind⟩ => ⟨t, List.mem_append_right front ht, hkind⟩

/-- The token that was read last is a newline, or none is left. -/
theorem closesLine_of_head? {c d : TokenCursor} {run : List Token} (h : c.Reads run d)
    (hne : run ≠ []) (hend : (d.atEnd || d.before.head?.any fun t => t.kind == .newline) = true) :
    ClosesLine run d.after := by
  rw [Bool.or_eq_true] at hend
  rcases hend with hend | hend
  · exact .inr (List.isEmpty_iff.1 hend)
  · have hlast : d.before.head? = some (run.getLast hne) := by
      rw [h.before_eq, List.head?_append, List.head?_reverse, List.getLast?_eq_some_getLast hne]
      rfl
    rw [hlast, Option.any_some, beq_iff_eq] at hend
    exact .inl ⟨_, List.getLast_mem hne, hend⟩

namespace Scanner

variable {source : Bytes} {c : TokenCursor}

/-! ### What the parts of a statement read -/

theorem decorators_reads (c : TokenCursor) : ∃ run, c.Reads run (decorators c).2 := by
  fun_induction decorators c with
  | case1 c _ here _ more ih =>
      obtain ⟨run, hrun⟩ := ih
      exact ⟨_, (Reads.skip c 1).trans ((Reads.skip here _).trans hrun)⟩
  | case2 c => exact ⟨[], .refl c⟩

theorem skipAsync_reads (c : TokenCursor) : ∃ run, c.Reads run (skipAsync c) := by
  unfold skipAsync
  split
  · exact ⟨_, .skip c 1⟩
  · exact ⟨[], .refl c⟩

/-- The decorators of a definition, and the word in front of its own. -/
theorem definition_reads (c : TokenCursor) : ∃ run, c.Reads run (skipAsync (decorators c).2) := by
  obtain ⟨front, hfront⟩ := decorators_reads c
  obtain ⟨more, hmore⟩ := skipAsync_reads (decorators c).2
  exact ⟨_, hfront.trans hmore⟩

/-- A definition begins with a sign or a word. -/
theorem definition_isWritten {k : Keyword}
    (h : (skipAsync (decorators c).2).isAt (.keyword k) = true) :
    ∀ t ∈ c.after.head?, t.kind.isWritten = true := by
  have hat {kind : TokenKind} (hkind : c.isAt kind = true) (hne : kind ≠ .eof)
      (hwritten : kind.isWritten = true) : ∀ t ∈ c.after.head?, t.kind.isWritten = true := by
    obtain ⟨t, rest, hafter, -⟩ := exists_of_isAt hkind hne
    rw [isAt_eq hafter, beq_iff_eq] at hkind
    intro u hu
    rw [hafter, List.head?_cons, Option.mem_some_iff] at hu
    rw [← hu, hkind, hwritten]
  by_cases hsign : c.isAt .atSign = true
  · exact hat hsign (by decide) rfl
  · rw [decorators, if_neg hsign] at h
    dsimp only [skipAsync] at h
    split at h
    next hasync =>
      rw [Bool.and_eq_true] at hasync
      exact hat hasync.1 nofun rfl
    · exact hat h nofun rfl

/-- A docstring statement, and the literal among its tokens. -/
theorem docstring?_reads {next : TokenCursor} {literal : DocLiteral}
    (h : docstring? c = some (literal, next)) :
    ∃ t more, t.kind = .string ∧ literal = .ofText t.text t.position ∧ c.Reads (t :: more) next := by
  unfold docstring? at h
  split at h
  · cases h
  next t rest hafter =>
    dsimp only at h
    split at h
    next hstring =>
      cases h
      simp only [Bool.and_eq_true, beq_iff_eq] at hstring
      obtain ⟨mark, hmark⟩ := Reads.skipIf c.advance .semicolon
      obtain ⟨line, hline⟩ := Reads.skipIf (c.advance.skipIf .semicolon) .newline
      exact ⟨t, mark ++ line, hstring.1.1, rfl, (Reads.advance hafter).trans (hmark.trans hline)⟩
    · cases h

/-- The place behind the docstring of a file. -/
def behindDocstring (c : TokenCursor) : TokenCursor :=
  match docstring? c with
  | some (_, rest) => rest
  | none => c

theorem behindDocstring_reads (c : TokenCursor) : ∃ run, c.Reads run (behindDocstring c) := by
  unfold behindDocstring
  cases hdocstring : docstring? c with
  | none => exact ⟨[], .refl c⟩
  | some found =>
      obtain ⟨literal, rest⟩ := found
      obtain ⟨t, more, -, -, hreads⟩ := docstring?_reads hdocstring
      exact ⟨_, hreads⟩

/-- The tokens of a simple statement stand in front of a newline, or the file ends behind them. -/
theorem statementEnd_reads (c : TokenCursor) :
    c.Reads (statementTokens c) (statementEnd c) ∧
      ∀ t ∈ (statementEnd c).after.head?, t.kind = .newline := by
  have hprefix : statementTokens c <+: c.after := List.takeWhile_prefix _
  have hskip := Reads.skip c (statementTokens c).length
  rw [← List.prefix_iff_eq_take.1 hprefix] at hskip
  refine ⟨hskip, fun t ht => ?_⟩
  have hbehind : (statementEnd c).after = c.after.dropWhile fun t => t.kind != .newline := by
    have hsplit := List.takeWhile_append_dropWhile (l := c.after) (p := fun t => t.kind != .newline)
    exact (List.append_cancel_left (hsplit.trans hskip.after_eq)).symm
  have hnot := List.head?_dropWhile_not (fun t : Token => t.kind != .newline) c.after
  rw [← hbehind, ht] at hnot
  simpa using hnot

/-- With the newline behind them they end a line, or the file. -/
theorem statementLine_reads (c : TokenCursor) :
    ∃ run, c.Reads run ((statementEnd c).skipIf .newline) ∧
      ClosesLine run ((statementEnd c).skipIf .newline).after := by
  obtain ⟨hreads, hhead⟩ := statementEnd_reads c
  cases hafter : (statementEnd c).after with
  | nil =>
      have hnone := skipIf_of_ne (isAt_nil hafter (by decide : TokenKind.newline ≠ .eof))
      rw [hnone]
      exact ⟨_, hreads, .inr hafter⟩
  | cons t rest =>
      have hkind : t.kind = .newline := hhead t (by rw [hafter]; rfl)
      have hat : (statementEnd c).isAt .newline = true := by simp [isAt_eq hafter, hkind]
      rw [TokenCursor.skipIf, if_pos hat]
      exact ⟨_, hreads.trans (.advance hafter), .inl ⟨t, by simp, hkind⟩⟩

/-! ### Headers -/

/-- The items between commas are runs of the tokens; the first is where the tokens begin, so that
whatever is put in front of them may become part of it. -/
theorem splitCommas_isInfix (depth : Int) (tokens : List Token) :
    ∃ first more, splitCommas depth tokens = first :: more ∧ first <+: tokens ∧
      ∀ item ∈ more, item <:+: tokens := by
  induction tokens generalizing depth with
  | nil => exact ⟨[], [], rfl, List.prefix_refl _, by simp⟩
  | cons t rest ih =>
      have hbehind : rest <:+: t :: rest := (List.suffix_cons t rest).isInfix
      unfold splitCommas
      split
      · obtain ⟨first, more, hrest, hfirst, hmore⟩ := ih 0
        refine ⟨[], first :: more, by rw [hrest], List.nil_prefix, fun item hitem => ?_⟩
        rcases List.mem_cons.1 hitem with rfl | hitem
        · exact hfirst.isInfix.trans hbehind
        · exact (hmore item hitem).trans hbehind
      · obtain ⟨first, more, hrest, hfirst, hmore⟩ := ih (depth + t.kind.nesting)
        exact ⟨t :: first, more, by rw [hrest], List.cons_prefix_cons.2 ⟨rfl, hfirst⟩,
          fun item hitem => (hmore item hitem).trans hbehind⟩

theorem isInfix_of_mem_splitItems {tokens item : List Token} (h : item ∈ splitItems tokens) :
    item <:+: tokens := by
  obtain ⟨first, more, heq, hfirst, hmore⟩ := splitCommas_isInfix 0 tokens
  have hitem : item ∈ first :: more := heq ▸ List.mem_of_mem_filter h
  rcases List.mem_cons.1 hitem with rfl | hitem
  · exact hfirst.isInfix
  · exact hmore item hitem

/-- A parameter takes up the tokens of its item. -/
theorem span_of_ofItem {source : Bytes} {item : List Token} {p : Parameter}
    (h : Parameter.ofItem source item = .ok (some p)) : p.span = Parameter.itemSpan item := by
  unfold Parameter.ofItem at h
  dsimp only at h
  split at h
  · cases h
  · split at h
    · cases h
    · split at h
      · split at h
        · cases h
        · cases h
          rfl
      · cases h

/-- The parameters are items of the tokens that are read. -/
theorem parameterList_reads (source : Bytes) (c : TokenCursor) :
    ∃ run, c.Reads run (parameterList source c).2.2 ∧
      ∀ p ∈ (parameterList source c).1, p.IsItemOf run := by
  have hlist := Reads.skip c (listLength 0 c.after)
  obtain ⟨closing, hclosing⟩ := Reads.skipIf (c.skip (listLength 0 c.after)) .rightParen
  refine ⟨_, hlist.trans hclosing, fun p hp => ?_⟩
  obtain ⟨item, hitem, hp⟩ := List.mem_filterMap.1 hp
  split at hp
  next parameter hparameter =>
    subst hp
    have hrun := isInfix_of_mem_splitItems hitem
    exact ⟨item, mem_splitItems_ne_nil hitem, hrun.trans (List.prefix_append _ closing).isInfix,
      span_of_ofItem hparameter⟩
  · cases hp

theorem skipResult_reads (c : TokenCursor) : ∃ run, c.Reads run (skipResult c) := by
  unfold skipResult
  split
  · exact ⟨_, (Reads.skip c 1).trans (.skip c.advance _)⟩
  · exact ⟨[], .refl c⟩

theorem classBases_reads (c : TokenCursor) : ∃ run, c.Reads run (classBases c) := by
  unfold classBases
  split
  · exact ⟨_, .skip c _⟩
  · exact ⟨[], .refl c⟩

/-- A header that is accepted ends in a colon. -/
theorem endHeader_reads {α : Type} (faults : List Fault) (make : UInt32 → α) (c : TokenCursor) :
    ∃ run, c.Reads run (endHeader faults make c).rest ∧
      ∀ header ∈ (endHeader faults make c).header,
        ∃ colon, colon.kind = .colon ∧ run = [colon] ∧ header = make colon.position.line := by
  unfold endHeader
  split
  next hcolon =>
    obtain ⟨colon, hkind, hposition, hreads⟩ := Reads.advance_of_isAt hcolon (by decide)
    refine ⟨[colon], hreads, fun header hheader => ⟨colon, hkind, rfl, ?_⟩⟩
    rw [← hposition]
    exact (Option.some.inj hheader).symm
  · exact ⟨_, .skip c _, by simp [refuse]⟩

/-- The tokens of a header from the word that defines on: the name, what follows it, and the colon. -/
structure HeaderTokens where
  word : Token
  name : Token
  middle : List Token
  colon : Token

namespace HeaderTokens

/-- All of them, in order. -/
def tokens (s : HeaderTokens) : List Token := s.word :: s.name :: (s.middle ++ [s.colon])

/-- The header names what is defined and ends in its last line. -/
structure IsHeader (s : HeaderTokens) (name : DeclaredName) (lastLine : UInt32) : Prop where
  name_kind : s.name.kind = .identifier
  name_eq : name = ⟨s.name.text, s.name.span⟩
  colon_kind : s.colon.kind = .colon
  lastLine_eq : lastLine = s.colon.position.line

end HeaderTokens

section Headers

variable {word : Token} {rest : List Token} (hafter : c.after = word :: rest)
include hafter

theorem functionHeader_reads (source : Bytes) :
    ∃ run, c.Reads run (functionHeader source c).rest ∧
      ∀ header ∈ (functionHeader source c).header, ∃ s : HeaderTokens, run = s.tokens ∧
        s.IsHeader header.name header.lastLine ∧ ∀ p ∈ header.parameters, p.IsItemOf s.middle := by
  have hword : c.Reads [word] c.advance := .advance hafter
  unfold functionHeader
  dsimp only
  split
  · exact ⟨_, hword.trans (.skip c.advance _), by simp [refuse]⟩
  next name _ hbehind =>
    have hname : c.advance.Reads [name] c.advance.advance := .advance hbehind
    split
    next hkind =>
      split
      · have hopening := Reads.skip c.advance.advance 1
        obtain ⟨list, hlist, hitems⟩ := parameterList_reads source c.advance.advance.advance
        obtain ⟨result, hresult⟩ :=
          skipResult_reads (parameterList source c.advance.advance.advance).2.2
        obtain ⟨last, hlast, hheader⟩ := endHeader_reads
          (parameterList source c.advance.advance.advance).2.1
          (fun lastLine => FunctionHeader.mk ⟨name.text, name.span⟩
            (parameterList source c.advance.advance.advance).1 lastLine)
          (skipResult (parameterList source c.advance.advance.advance).2.2)
        refine ⟨_, hword.trans (hname.trans ((hopening.trans (hlist.trans hresult)).trans hlast)),
          fun header hsome => ?_⟩
        obtain ⟨colon, hcolon, rfl, rfl⟩ := hheader header hsome
        refine ⟨⟨word, name, _, colon⟩, rfl, ⟨hkind, rfl, hcolon, rfl⟩, fun p hp => ?_⟩
        exact (hitems p hp).mono ⟨_, result, List.append_assoc _ _ _⟩
      · exact ⟨_, hword.trans (hname.trans (.skip c.advance.advance _)), by simp [refuse]⟩
    · exact ⟨_, hword.trans (.skip c.advance _), by simp [refuse]⟩

theorem classHeader_reads :
    ∃ run, c.Reads run (classHeader c).rest ∧ ∀ header ∈ (classHeader c).header,
      ∃ s : HeaderTokens, run = s.tokens ∧ s.IsHeader header.name header.lastLine := by
  have hword : c.Reads [word] c.advance := .advance hafter
  unfold classHeader
  dsimp only
  split
  · exact ⟨_, hword.trans (.skip c.advance _), by simp [refuse]⟩
  next name _ hbehind =>
    have hname : c.advance.Reads [name] c.advance.advance := .advance hbehind
    split
    next hkind =>
      obtain ⟨bases, hbases⟩ := classBases_reads c.advance.advance
      obtain ⟨last, hlast, hheader⟩ := endHeader_reads []
        (fun lastLine => ClassHeader.mk ⟨name.text, name.span⟩ lastLine)
        (classBases c.advance.advance)
      refine ⟨_, hword.trans (hname.trans (hbases.trans hlast)), fun header hsome => ?_⟩
      obtain ⟨colon, hcolon, rfl, rfl⟩ := hheader header hsome
      exact ⟨⟨word, name, bases, colon⟩, rfl, ⟨hkind, rfl, hcolon, rfl⟩⟩
    · exact ⟨_, hword.trans (.skip c.advance _), by simp [refuse]⟩

end Headers

end Scanner

/-- Behind the module, a file declares what its statements declare. -/
theorem ScannedSource.ofTokens_eq_statements (context : ScanContext) (tokens : List Token) :
    let found := statements context (behindDocstring (.ofTokens tokens))
    (ofTokens context tokens).declarations.tail = found.declarations ∧
      (ofTokens context tokens).faults = found.faults := by
  unfold ofTokens behindDocstring
  dsimp only
  cases docstring? (.ofTokens tokens) <;> exact ⟨rfl, rfl⟩

end DocLint
