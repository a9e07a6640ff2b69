import DocLint.Proofs.Source.Tiling

/-!
# The block structure of a token stream

Newline, indent and dedent tokens are made up by the lexer, from the brackets, the blanks and the
line ends of a source text that may be malformed in any way.  Still the tokens always form lines and
blocks: every line has something in it, blocks begin and end between lines, every block that is begun
is ended, and the end mark comes last.

* `Arranged`: the token kinds that may follow, given the open blocks and whether a line is open.
* `step_arranged`, `run_arranged`: the kinds that a step and a run yield are arranged.
* `exists_first_eof`: asking for one token after the other gives the tokens of the source text, and
  then the end mark for ever.
* `ofSource_isBlockStructured`: what this means for a whole token stream.
-/

namespace DocLint

open Bytes

namespace TokenKind

/-- The kind begins or ends a block. -/
def isBlockMark (kind : TokenKind) : Bool := kind == indent || kind == dedent

/-- The kind stands for something written: it is neither a mark of the layout nor the end mark. -/
def isWritten (kind : TokenKind) : Bool := !kind.isBlockMark && kind != newline && kind != eof

end TokenKind

open TokenKind

/-- The kinds of the tokens among some items. -/
def kindsOf (items : List LexItem) : List TokenKind :=
  (items.filterMap LexItem.token?).map Token.kind

@[simp] theorem kindsOf_nil : kindsOf [] = [] := rfl

@[simp] theorem kindsOf_token (t : Token) (items : List LexItem) :
    kindsOf (.token t :: items) = t.kind :: kindsOf items := rfl

@[simp] theorem kindsOf_comment (c : Comment) (items : List LexItem) :
    kindsOf (.comment c :: items) = kindsOf items := rfl

@[simp] theorem kindsOf_fault (f : Fault) (items : List LexItem) :
    kindsOf (.fault f :: items) = kindsOf items := rfl

@[simp] theorem kindsOf_append (items more : List LexItem) :
    kindsOf (items ++ more) = kindsOf items ++ kindsOf more := by
  simp [kindsOf]

/-! ### Arranged kinds -/

/-- The kinds that may follow up to the end of the file, where some number of blocks is open and a
line is open or not.  Blocks begin and end between lines. -/
inductive Arranged : Nat → Bool → List TokenKind → Prop
  | done : Arranged 0 false [.eof]
  | written {blocks : Nat} {lineOpen : Bool} {kind : TokenKind} {rest : List TokenKind}
      (h : kind.isWritten = true) (next : Arranged blocks true rest) :
      Arranged blocks lineOpen (kind :: rest)
  | newline {blocks : Nat} {rest : List TokenKind} (next : Arranged blocks false rest) :
      Arranged blocks true (.newline :: rest)
  | indent {blocks : Nat} {rest : List TokenKind} (next : Arranged (blocks + 1) false rest) :
      Arranged blocks false (.indent :: rest)
  | dedent {blocks : Nat} {rest : List TokenKind} (next : Arranged blocks false rest) :
      Arranged (blocks + 1) false (.dedent :: rest)

namespace Arranged

variable {blocks : Nat} {lineOpen : Bool} {kinds : List TokenKind}

/-- Several blocks may end at once. -/
theorem dedents (n : Nat) (h : Arranged blocks false kinds) :
    Arranged (blocks + n) false (List.replicate n .dedent ++ kinds) := by
  induction n with
  | zero => exact h
  | succ n ih => exact .dedent ih

/-- The end mark is the last kind and stands nowhere else. -/
theorem eof_last (h : Arranged blocks lineOpen kinds) :
    ∃ body, kinds = body ++ [.eof] ∧ TokenKind.eof ∉ body := by
  have hcons {kind : TokenKind} {rest : List TokenKind} (hkind : TokenKind.eof ≠ kind)
      (hrest : ∃ body, rest = body ++ [.eof] ∧ TokenKind.eof ∉ body) :
      ∃ body, kind :: rest = body ++ [.eof] ∧ TokenKind.eof ∉ body := by
    obtain ⟨body, rfl, hbody⟩ := hrest
    exact ⟨kind :: body, rfl, by simp [hkind, hbody]⟩
  induction h with
  | done => exact ⟨[], rfl, List.not_mem_nil⟩
  | written h _ ih =>
      refine hcons ?_ ih
      rintro rfl
      cases h
  | newline _ ih => exact hcons (by simp) ih
  | indent _ ih => exact hcons (by simp) ih
  | dedent _ ih => exact hcons (by simp) ih

theorem ne_indent_dedent {kind : TokenKind} (h : kind.isWritten = true) :
    kind ≠ .indent ∧ kind ≠ .dedent := by
  constructor
  · rintro rfl
    cases h
  · rintro rfl
    cases h

/-- Only open blocks are ended. -/
theorem count_dedent_le (h : Arranged blocks lineOpen kinds) {front : List TokenKind}
    (hfront : front <+: kinds) : front.count .dedent ≤ blocks + front.count .indent := by
  induction h generalizing front with
  | done =>
      rcases List.prefix_cons_iff.1 hfront with rfl | ⟨tail, rfl, htail⟩
      · simp
      · rw [List.prefix_nil.1 htail]
        simp
  | written h _ ih =>
      rcases List.prefix_cons_iff.1 hfront with rfl | ⟨tail, rfl, htail⟩
      · simp
      · have hle := ih htail
        obtain ⟨hindent, hdedent⟩ := ne_indent_dedent h
        rwa [List.count_cons_of_ne hindent, List.count_cons_of_ne hdedent]
  | newline _ ih =>
      rcases List.prefix_cons_iff.1 hfront with rfl | ⟨tail, rfl, htail⟩
      · simp
      · have hle := ih htail
        rwa [List.count_cons_of_ne (by simp), List.count_cons_of_ne (by simp)]
  | indent _ ih =>
      rcases List.prefix_cons_iff.1 hfront with rfl | ⟨tail, rfl, htail⟩
      · simp
      · have hle := ih htail
        rw [List.count_cons_of_ne (by simp), List.count_cons_self]
        omega
  | dedent _ ih =>
      rcases List.prefix_cons_iff.1 hfront with rfl | ⟨tail, rfl, htail⟩
      · simp
      · have hle := ih htail
        rw [List.count_cons_self, List.count_cons_of_ne (by simp)]
        omega

/-- Every block is ended. -/
theorem count_dedent_eq (h : Arranged blocks lineOpen kinds) :
    kinds.count .dedent = blocks + kinds.count .indent := by
  induction h with
  | done => rfl
  | written h _ ih =>
      obtain ⟨hindent, hdedent⟩ := ne_indent_dedent h
      rwa [List.count_cons_of_ne hindent, List.count_cons_of_ne hdedent]
  | newline _ ih => rwa [List.count_cons_of_ne (by simp), List.count_cons_of_ne (by simp)]
  | indent _ ih =>
      rw [List.count_cons_of_ne (by simp), List.count_cons_self]
      omega
  | dedent _ ih =>
      rw [List.count_cons_self, List.count_cons_of_ne (by simp)]
      omega

/-- What follows any part is arranged again. -/
theorem suffix {front back : List TokenKind} (h : Arranged blocks lineOpen (front ++ back))
    (hback : back ≠ []) : ∃ blocks lineOpen, Arranged blocks lineOpen back := by
  induction front generalizing blocks lineOpen with
  | nil => exact ⟨blocks, lineOpen, h⟩
  | cons kind front ih =>
      rw [List.cons_append] at h
      generalize hrest : front ++ back = rest at h ih
      cases h with
      | done => exact absurd (List.append_eq_nil_iff.1 hrest).2 hback
      | written _ next => exact ih next
      | newline next => exact ih next
      | indent next => exact ih next
      | dedent next => exact ih next

/-- Where no line is open, something written comes before the next newline. -/
theorem exists_written {front back : List TokenKind}
    (h : Arranged blocks false (front ++ .newline :: back)) :
    ∃ kind ∈ front, kind.isWritten = true := by
  induction front generalizing blocks with
  | nil =>
      cases h with
      | written h _ => cases h
  | cons kind front ih =>
      have hcons (hfront : ∃ k ∈ front, k.isWritten = true) :
          ∃ k ∈ kind :: front, k.isWritten = true := by
        obtain ⟨k, hk, hwritten⟩ := hfront
        exact ⟨k, List.mem_cons_of_mem kind hk, hwritten⟩
      rw [List.cons_append] at h
      generalize hrest : front ++ .newline :: back = rest at h ih
      cases h with
      | done => simp at hrest
      | written h _ => exact ⟨kind, List.mem_cons_self, h⟩
      | indent next => exact hcons (ih next)
      | dedent next => exact hcons (ih next)

/-- Behind a newline no line is open. -/
theorem behind_newline {back : List TokenKind} (h : Arranged blocks lineOpen (.newline :: back)) :
    Arranged blocks false back := by
  cases h with
  | written h _ => cases h
  | newline next => exact next

/-- Something written opens a line. -/
theorem behind_written {kind : TokenKind} {back : List TokenKind} (hkind : kind.isWritten = true)
    (h : Arranged blocks lineOpen (kind :: back)) : Arranged blocks true back := by
  cases h with
  | done => cases hkind
  | written _ next => exact next
  | newline _ => cases hkind
  | indent _ => cases hkind
  | dedent _ => cases hkind

/-- Where a line is open, a newline or something written comes next. -/
theorem newline_mem (h : Arranged blocks true kinds) (hlast : ∀ k ∈ kinds, k.isWritten = false) :
    TokenKind.newline ∈ kinds := by
  cases h with
  | @written _ _ kind rest h _ =>
      rw [hlast kind List.mem_cons_self] at h
      cases h
  | newline _ => exact List.mem_cons_self

/-- A block begins or ends behind a newline and other such marks, or behind nothing else. -/
theorem marks_between_lines {front back : List TokenKind} {mark : TokenKind}
    (hmark : mark.isBlockMark = true) (h : Arranged blocks lineOpen (front ++ mark :: back)) :
    ∃ lines marks, front = lines ++ marks ∧ (∀ m ∈ marks, m.isBlockMark = true) ∧
      (lines = [] ∧ lineOpen = false ∨ lines.getLast? = some .newline) := by
  induction front generalizing blocks lineOpen with
  | nil =>
      have hclosed : lineOpen = false := by
        cases h with
        | done => cases hmark
        | written h _ => simp [isWritten, hmark] at h
        | newline _ => cases hmark
        | indent _ => rfl
        | dedent _ => rfl
      exact ⟨[], [], rfl, by simp, .inl ⟨rfl, hclosed⟩⟩
  | cons kind front ih =>
      -- The kind joins the lines, unless there are none and it is a mark itself.
      have hlines {lines marks : List TokenKind} (hfront : front = lines ++ marks)
          (hmarks : ∀ m ∈ marks, m.isBlockMark = true) (hlast : lines.getLast? = some .newline) :
          ∃ lines marks, kind :: front = lines ++ marks ∧ (∀ m ∈ marks, m.isBlockMark = true) ∧
            (lines = [] ∧ lineOpen = false ∨ lines.getLast? = some .newline) := by
        refine ⟨kind :: lines, marks, by simp [hfront], hmarks, .inr ?_⟩
        rw [List.getLast?_cons, hlast]
        rfl
      rw [List.cons_append] at h
      generalize hrest : front ++ mark :: back = rest at h ih
      cases h with
      | done => simp at hrest
      | written _ next =>
          obtain ⟨lines, marks, hfront, hmarks, ⟨-, hopen⟩ | hlast⟩ := ih next
          · cases hopen
          · exact hlines hfront hmarks hlast
      | newline next =>
          obtain ⟨lines, marks, hfront, hmarks, ⟨rfl, -⟩ | hlast⟩ := ih next
          · exact ⟨[.newline], marks, by simp [hfront], hmarks, .inr rfl⟩
          · exact hlines hfront hmarks hlast
      | indent next =>
          obtain ⟨lines, marks, hfront, hmarks, ⟨rfl, -⟩ | hlast⟩ := ih next
          · exact ⟨[], .indent :: marks, by simp [hfront], by simpa using ⟨rfl, hmarks⟩,
              .inl ⟨rfl, rfl⟩⟩
          · exact hlines hfront hmarks hlast
      | dedent next =>
          obtain ⟨lines, marks, hfront, hmarks, ⟨rfl, -⟩ | hlast⟩ := ih next
          · exact ⟨[], .dedent :: marks, by simp [hfront], by simpa using ⟨rfl, hmarks⟩,
              .inl ⟨rfl, rfl⟩⟩
          · exact hlines hfront hmarks hlast

end Arranged

/-! ### Steps and runs -/

theorem ofWord_isWritten (word : Bytes) : (TokenKind.ofWord word).isWritten = true := by
  unfold TokenKind.ofWord
  split
  · rfl
  · rfl

/-- Every lexeme is something written. -/
theorem Lexeme.first_isWrittenKind (c : UInt8) (r : Bytes) :
    (first c r).kind.isWritten = true := by
  have hoperators : ∀ entry ∈ operators, entry.2.isWritten = true := by decide
  unfold first
  split
  · rfl
  · split
    · unfold ofWord
      dsimp only
      split
      · rfl
      · exact ofWord_isWritten _
    · split
      · rfl
      · split
        next spelling kind hfound => exact hoperators _ (List.mem_of_find?_eq_some hfound)
        · rfl

/-- No lexeme is read as the end of a line. -/
theorem Lexeme.first_kind_ne_newline (c : UInt8) (r : Bytes) : (first c r).kind ≠ .newline := by
  have hwritten := first_isWrittenKind c r
  intro hkind
  rw [hkind] at hwritten
  cases hwritten

namespace Lexer

/-- At the beginning of a line neither a line nor a bracket is open. -/
def IsSettled (l : Lexer) : Prop := l.lineStart = true → l.lineOpen = false ∧ l.depth = 0

/-- The kinds that the lexer may yield from now on: none after the end of the file, else kinds that
fit its blocks and its line. -/
def MayYield (l : Lexer) (kinds : List TokenKind) : Prop :=
  if l.finished then kinds = [] else Arranged l.levels.length l.lineOpen kinds

theorem kindsOf_dedents {α : Type} (cursor : ByteCursor) (levels : List α) :
    kindsOf (levels.map fun _ => .token (cursor.mark .dedent)) =
      List.replicate levels.length .dedent := by
  induction levels with
  | nil => rfl
  | cons level levels ih =>
      rw [List.map_cons, kindsOf_token, ih]
      rfl

/-- A change of indentation begins one block or ends some. -/
theorem layout_arranged (cursor : ByteCursor) (levels : List Nat) (width : Nat)
    {rest : List TokenKind} (h : Arranged (layout cursor levels width).2.length false rest) :
    Arranged levels.length false (kindsOf (layout cursor levels width).1 ++ rest) := by
  unfold layout at h ⊢
  split at h
  next hdeeper =>
    rw [if_pos hdeeper]
    exact .indent h
  next hdeeper =>
    rw [if_neg hdeeper]
    have hfault : kindsOf (if (levels.dropWhile (width < ·)).headD 0 = width then []
        else [.fault ⟨cursor.position, .unmatchedIndentation⟩]) = [] := by
      split
      · rfl
      · rfl
    have hlength : levels.length =
        (levels.dropWhile (width < ·)).length + (levels.takeWhile (width < ·)).length := by
      rw [Nat.add_comm, ← List.length_append, List.takeWhile_append_dropWhile]
    rw [kindsOf_append, kindsOf_dedents, hfault, List.append_nil, hlength]
    exact h.dedents _

theorem kindsOf_optionalComment (cursor : ByteCursor) : kindsOf (optionalComment cursor).1 = [] := by
  unfold optionalComment
  split
  · rfl
  · rfl

theorem startLine_arranged {l : Lexer} (running : l.finished = false) (hstart : l.lineStart = true)
    (hdepth : l.depth = 0) (h : l.IsSettled) :
    l.startLine.2.IsSettled ∧ ∀ rest, l.startLine.2.MayYield rest →
      l.MayYield (kindsOf l.startLine.1 ++ rest) := by
  obtain ⟨hclosed, -⟩ := h hstart
  have hcomments := kindsOf_optionalComment
    (l.cursor.skip (l.cursor.rest.takeWhile isIndentation).length)
  simp only [MayYield, finished_startLine, running, Bool.false_eq_true, if_false, hclosed]
  dsimp only [startLine]
  split
  · refine ⟨fun hbegin => Bool.noConfusion hbegin, fun rest hrest => ?_⟩
    rw [hcomments, List.nil_append]
    simpa only [hclosed] using hrest
  · split
    · refine ⟨fun _ => ⟨hclosed, hdepth⟩, fun rest hrest => ?_⟩
      rw [hcomments, List.nil_append]
      simpa only [hclosed] using hrest
    · refine ⟨fun hbegin => Bool.noConfusion hbegin, fun rest hrest => ?_⟩
      rw [kindsOf_append, hcomments]
      refine layout_arranged _ _ _ ?_
      simpa only [hclosed] using hrest

theorem finish_arranged (l : Lexer) (here : ByteCursor) :
    Arranged l.levels.length l.lineOpen (kindsOf (l.finish here).1) := by
  have hfault : kindsOf (if 0 < l.depth then [.fault ⟨here.position, .openBracket⟩] else []) = [] := by
    split
    · rfl
    · rfl
  have hblocks : Arranged l.levels.length false
      (List.replicate l.levels.length .dedent ++ [.eof]) := by
    have hdedents := Arranged.dedents l.levels.length .done
    rwa [Nat.zero_add] at hdedents
  simp only [finish, kindsOf_append, hfault, kindsOf_dedents, List.nil_append, List.append_assoc]
  cases hopen : l.lineOpen with
  | false => exact hblocks
  | true => exact .newline hblocks

theorem endLine_arranged {l : Lexer} (running : l.finished = false) (hstart : l.lineStart = false)
    (here : ByteCursor) :
    (l.endLine here).2.IsSettled ∧ ∀ rest, (l.endLine here).2.MayYield rest →
      l.MayYield (kindsOf (l.endLine here).1 ++ rest) := by
  simp only [MayYield, finished_endLine, running, Bool.false_eq_true, if_false]
  unfold endLine
  by_cases hdepth : 0 < l.depth
  · rw [if_pos hdepth]
    refine ⟨fun hbegin => ?_, fun rest hrest => hrest⟩
    rw [show l.lineStart = true from hbegin] at hstart
    cases hstart
  · rw [if_neg hdepth]
    have hzero : l.depth = 0 := Nat.eq_zero_of_not_pos hdepth
    by_cases hopen : l.lineOpen = true
    · rw [if_pos hopen, hopen]
      exact ⟨fun _ => ⟨rfl, hzero⟩, fun rest hrest => .newline hrest⟩
    · rw [if_neg hopen]
      exact ⟨fun _ => ⟨by simpa using hopen, hzero⟩, fun rest hrest => hrest⟩

theorem readLexeme_arranged {l : Lexer} (running : l.finished = false)
    (hstart : l.lineStart = false) (here : ByteCursor) (c : UInt8) (r : Bytes) :
    (l.readLexeme here c r).2.IsSettled ∧ ∀ rest, (l.readLexeme here c r).2.MayYield rest →
      l.MayYield (kindsOf (l.readLexeme here c r).1 ++ rest) := by
  refine ⟨fun hbegin => ?_, fun rest hrest => ?_⟩
  · rw [show l.lineStart = true from hbegin] at hstart
    cases hstart
  · simp only [MayYield, readLexeme, running, Bool.false_eq_true, if_false] at hrest ⊢
    have hkind := Lexeme.first_isWrittenKind c r
    split
    · exact .written hkind hrest
    · exact .written hkind hrest

theorem resume_arranged {l : Lexer} (running : l.finished = false) (hstart : l.lineStart = false) :
    l.resume.2.IsSettled ∧ ∀ rest, l.resume.2.MayYield rest →
      l.MayYield (kindsOf l.resume.1 ++ rest) := by
  dsimp only [resume]
  split
  · refine ⟨fun hbegin => ?_, fun rest hrest => ?_⟩
    · rw [show l.lineStart = true from hbegin] at hstart
      cases hstart
    · obtain rfl : rest = [] := hrest
      rw [List.append_nil, MayYield, if_neg (by simp [running])]
      exact finish_arranged l _
  next c r hrest =>
    split
    · refine ⟨fun hbegin => ?_, fun rest hrest => hrest⟩
      rw [show l.lineStart = true from hbegin] at hstart
      cases hstart
    · split
      · exact endLine_arranged running hstart _
      · exact readLexeme_arranged running hstart _ c r

/-- What a step yields fits the lexer before it, in front of what fits the lexer behind it. -/
theorem step_arranged {l : Lexer} (running : l.finished = false) (h : l.IsSettled) :
    l.step.2.IsSettled ∧ ∀ rest, l.step.2.MayYield rest →
      l.MayYield (kindsOf l.step.1 ++ rest) := by
  unfold step
  by_cases hbegin : (l.lineStart && l.depth == 0) = true
  · rw [if_pos hbegin]
    rw [Bool.and_eq_true, beq_iff_eq] at hbegin
    exact startLine_arranged running hbegin.1 hbegin.2 h
  · rw [if_neg hbegin]
    -- A lexer at the beginning of a line has no brackets open, so this one is in mid-line.
    have hstart : l.lineStart = false := by
      cases hstart : l.lineStart with
      | false => rfl
      | true =>
          obtain ⟨-, hdepth⟩ := h hstart
          simp [hstart, hdepth] at hbegin
    exact resume_arranged running hstart

/-- What a run yields fits the lexer. -/
theorem run_arranged {l : Lexer} (h : l.IsSettled) : l.MayYield (kindsOf l.run.1) := by
  fun_induction run l with
  | case1 l hfinished =>
      rw [MayYield, if_pos hfinished]
      rfl
  | case2 l hrunning rest ih =>
      obtain ⟨hsettled, hstep⟩ := step_arranged (by simpa using hrunning) h
      rw [kindsOf_append]
      exact hstep _ (ih hsettled)

end Lexer

/-! ### Token streams -/

namespace TokenStream

/-- The stream of a source text. -/
def ofSource (source : Bytes) : TokenStream := { lexer := Lexer.ofSource source }

/-- The tokens that have not been handed out yet. -/
def tokens (s : TokenStream) : List Token := s.pending ++ s.lexer.run.1.filterMap LexItem.token?

/-- What is handed out behind the last token. -/
def endMark (s : TokenStream) : Token := s.lexer.run.2.cursor.mark .eof

/-- The token that the `n`-th call, counted from zero, hands out. -/
def call (s : TokenStream) : Nat → Token
  | 0 => s.next.1
  | n + 1 => s.next.2.call n

theorem run_step {l : Lexer} (running : l.finished = false) :
    l.run = (l.step.1 ++ l.step.2.run.1, l.step.2.run.2) := by
  rw [Lexer.run, if_neg (by simp [running])]

/-- A call takes the first token away, and hands out the end mark where there is none. -/
theorem next_eq (s : TokenStream) :
    s.next.1 = s.tokens.headD s.endMark ∧ s.next.2.tokens = s.tokens.tail ∧
      s.next.2.endMark = s.endMark := by
  fun_induction next s with
  | case1 s t pending hpending => simp [tokens, endMark, hpending]
  | case2 s hpending hfinished =>
      have hrun : s.lexer.run = ([], s.lexer) := by rw [Lexer.run, if_pos hfinished]
      simp [tokens, endMark, hpending, hrun]
  | case3 s hpending hrunning ih =>
      have hrun := run_step (l := s.lexer) (by simpa using hrunning)
      have htokens : tokens ⟨s.lexer.step.1.filterMap LexItem.token?, s.lexer.step.2⟩ =
          s.tokens := by
        simp [tokens, hpending, hrun]
      have hmark : endMark ⟨s.lexer.step.1.filterMap LexItem.token?, s.lexer.step.2⟩ =
          s.endMark := by
        simp [endMark, hrun]
      rwa [htokens, hmark] at ih

theorem call_eq (s : TokenStream) (n : Nat) : s.call n = s.tokens[n]?.getD s.endMark := by
  induction n generalizing s with
  | zero =>
      rw [call, (next_eq s).1]
      cases s.tokens with
      | nil => rfl
      | cons t rest => rfl
  | succ n ih =>
      obtain ⟨-, htail, hmark⟩ := next_eq s
      rw [call, ih, htail, hmark, List.getElem?_tail]

/-- One call after the other hands out the tokens of the source text, and then the end mark for
ever. -/
theorem call_ofSource (source : Bytes) (n : Nat) :
    (ofSource source).call n = (LexedSource.ofSource source).tokens[n]?.getD
      ((LexedSource.ofSource source).lexer.cursor.mark .eof) :=
  call_eq (ofSource source) n

end TokenStream

/-! ### Whole token streams -/

/-- The lines and blocks of a whole token stream. -/
structure IsBlockStructured (kinds : List TokenKind) : Prop where
  /-- The end mark stands at the end and nowhere else. -/
  eof_last : ∃ body, kinds = body ++ [.eof] ∧ TokenKind.eof ∉ body
  /-- No more blocks end than have begun. -/
  dedent_le_indent : ∀ front, front <+: kinds → front.count .dedent ≤ front.count .indent
  /-- All blocks that have begun end. -/
  dedent_eq_indent : kinds.count .dedent = kinds.count .indent
  /-- There is something written between two newlines. -/
  between_newlines : ∀ front middle back,
    kinds = front ++ .newline :: (middle ++ .newline :: back) → ∃ kind ∈ middle, kind.isWritten
  /-- A block begins or ends behind a newline, or behind nothing, other such marks apart. -/
  between_lines : ∀ front mark back, kinds = front ++ mark :: back → mark.isBlockMark →
    ∃ lines marks, front = lines ++ marks ∧ (∀ m ∈ marks, m.isBlockMark) ∧
      (lines = [] ∨ lines.getLast? = some .newline)
  /-- A newline follows what is written last. -/
  last_line_ends : ∀ front kind back, kinds = front ++ kind :: back → kind.isWritten →
    (∀ k ∈ back, ¬ k.isWritten) → TokenKind.newline ∈ back

/-- What is arranged from the beginning of a file has its lines and blocks in order. -/
theorem Arranged.isBlockStructured {kinds : List TokenKind} (h : Arranged 0 false kinds) :
    IsBlockStructured kinds where
  eof_last := h.eof_last
  dedent_le_indent front hfront := by
    have hle := h.count_dedent_le hfront
    omega
  dedent_eq_indent := by
    have heq := h.count_dedent_eq
    omega
  between_newlines front middle back hkinds := by
    rw [hkinds] at h
    obtain ⟨blocks, lineOpen, hback⟩ := h.suffix (by simp)
    exact hback.behind_newline.exists_written
  between_lines front mark back hkinds hmark := by
    rw [hkinds] at h
    obtain ⟨lines, marks, hfront, hmarks, hlines⟩ := h.marks_between_lines hmark
    exact ⟨lines, marks, hfront, hmarks, hlines.imp_left And.left⟩
  last_line_ends front kind back hkinds hkind hlast := by
    rw [hkinds] at h
    obtain ⟨blocks, lineOpen, hback⟩ := h.suffix (by simp)
    exact (hback.behind_written hkind).newline_mem fun k hk => by simpa using hlast k hk

theorem LexedSource.arranged (source : Bytes) :
    Arranged 0 false ((ofSource source).tokens.map Token.kind) := by
  have hrun := Lexer.run_arranged (l := Lexer.ofSource source) fun _ => ⟨rfl, rfl⟩
  rwa [Lexer.MayYield, if_neg (by simp [Lexer.ofSource])] at hrun

theorem TokenStream.kind_call_ofSource (source : Bytes) (n : Nat) :
    ((ofSource source).call n).kind =
      ((LexedSource.ofSource source).tokens.map Token.kind)[n]?.getD .eof := by
  rw [call_ofSource, List.getElem?_map]
  cases (LexedSource.ofSource source).tokens[n]? with
  | none => rfl
  | some t => rfl

/-- Asking for tokens up to the first end mark gives the tokens of the source text, and from then on
there are only end marks. -/
theorem TokenStream.exists_first_eof (source : Bytes) :
    ∃ n, (LexedSource.ofSource source).tokens = (List.range (n + 1)).map (ofSource source).call ∧
      ∀ m, ((ofSource source).call m).kind = .eof ↔ n ≤ m := by
  obtain ⟨body, hkinds, hbody⟩ := (LexedSource.arranged source).eof_last
  have hlength : (LexedSource.ofSource source).tokens.length = body.length + 1 := by
    rw [← List.length_map Token.kind, hkinds, List.length_append, List.length_singleton]
  refine ⟨body.length, ?_, fun m => ?_⟩
  · apply List.ext_getElem
    · rw [hlength, List.length_map, List.length_range]
    · intro i hi _
      rw [List.getElem_map, List.getElem_range, call_ofSource, List.getElem?_eq_getElem hi]
      rfl
  · rw [kind_call_ofSource, hkinds]
    constructor
    · intro heof
      by_contra hlt
      rw [List.getElem?_append_left (Nat.not_le.1 hlt),
        List.getElem?_eq_getElem (Nat.not_le.1 hlt), Option.getD_some] at heof
      exact hbody (heof ▸ List.getElem_mem _)
    · intro hle
      rw [List.getElem?_append_right hle]
      cases m - body.length with
      | zero => rfl
      | succ i => rfl

/-- Whatever the source text is, if a word can count its bytes, asking for its tokens comes to an end
mark, which is the last token and is then given for ever, and its newlines, indents and dedents form
lines and blocks. -/
theorem ofSource_isBlockStructured {source : Bytes} (hsize : source.length < 2 ^ 32) :
    ∃ lexed, LexedSource.ofSource? source = some lexed ∧
      (∃ n, lexed.tokens = (List.range (n + 1)).map (TokenStream.ofSource source).call ∧
        ∀ m, ((TokenStream.ofSource source).call m).kind = .eof ↔ n ≤ m) ∧
      IsBlockStructured (lexed.tokens.map Token.kind) :=
  ⟨LexedSource.ofSource source, LexedSource.ofSource?_eq_some hsize,
    TokenStream.exists_first_eof source, (LexedSource.arranged source).isBlockStructured⟩

theorem ofSource_isBlockStructured_raggedSource :
    LexedSource.raggedSource.length < 2 ^ 32 ∧
      ∃ lexed, LexedSource.ofSource? LexedSource.raggedSource = some lexed ∧
        (∃ n, lexed.tokens =
            (List.range (n + 1)).map (TokenStream.ofSource LexedSource.raggedSource).call ∧
          ∀ m, ((TokenStream.ofSource LexedSource.raggedSource).call m).kind = .eof ↔ n ≤ m) ∧
        IsBlockStructured (lexed.tokens.map Token.kind) := by
  have hsize : LexedSource.raggedSource.length < 2 ^ 32 := by cbv
  exact ⟨hsize, ofSource_isBlockStructured hsize⟩

/-- No word counts the bytes of so many blanks, so that their end is not found. -/
theorem not_ofSource_isBlockStructured_blanks :
    ¬ ∃ lexed, LexedSource.ofSource? (List.replicate (2 ^ 32) (byte ' ')) = some lexed ∧
      IsBlockStructured (lexed.tokens.map Token.kind) := by
  rintro ⟨lexed, hlexed, -⟩
  have hlength := List.length_replicate (n := 2 ^ 32) (a := byte ' ')
  rw [LexedSource.ofSource?_eq_none (by omega)] at hlexed
  cases hlexed

end DocLint
