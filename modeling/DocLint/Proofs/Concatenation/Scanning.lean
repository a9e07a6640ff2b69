import DocLint.Proofs.Concatenation.Contributions
import DocLint.Proofs.Source.ScanCases
import Mathlib

/-!
# Scanning a file inside another one

The scanner reads a file that stands inside another one as it reads the file alone, as long as nothing
is reported: it finds the same, further down, and leaves as many tokens.

* `ScanEmbeds`: what two scans have in common.
* `StatementEmbeds`, `SimpleEmbeds`, `BlockEmbeds`, `ClassEmbeds`, `SuiteEmbeds`, `FunctionEmbeds`:
  so it is with each construct.
* `scan_embeds`: so it is with all of them.
* `statements_embed`: all statements of a file, and what is behind them.
-/

namespace DocLint

open TokenKind Scanner TokenCursor

namespace Embedding

variable {context context' : ScanContext} {tokens : List Token}
  (e : Embedding context context' tokens)

/-- Two scans from `c` and `c'` found the same, went on alike to where a statement may begin, and
went forward if there was anything. -/
structure ScanEmbeds (nest : Nat) (c c' : TokenCursor) (scan scan' : Findings × TokenCursor) :
    Prop where
  found : scan'.1 = scan.1.lower e.lines
  along : Along c c' scan.2 scan'.2
  start : e.AtStart nest scan.2 scan'.2
  forward : c.after ≠ [] → scan.2.length < c.length

/-- A statement is scanned alike where one may begin; at top level that may be a surplus dedent. -/
def StatementEmbeds (scope : Scope) (c : TokenCursor) : Prop :=
  ∀ nest c', (statement context scope c).1.faults = [] → e.AtStart nest c c' → c.after ≠ [] →
    (e.behind ≠ [] → c.isAt .dedent = true → nest = 0) →
    e.ScanEmbeds nest c c' (statement context scope c) (statement context' scope c')

/-- A statement that defines nothing is scanned alike in a line. -/
def SimpleEmbeds (scope : Scope) (c : TokenCursor) : Prop :=
  ∀ nest c', (simpleStatement context scope c).1.faults = [] → e.OnLine nest c c' →
    e.ScanEmbeds nest c c' (simpleStatement context scope c) (simpleStatement context' scope c')

/-- A block is scanned alike, with the dedent that ends it. -/
def BlockEmbeds (scope : Scope) (c : TokenCursor) : Prop :=
  ∀ nest c', (block context scope c).1.faults = [] → e.AtStart (nest + 1) c c' →
    e.ScanEmbeds nest c c' (block context scope c) (block context' scope c')

/-- A class is scanned alike, wherever it begins. -/
def ClassEmbeds (scope : Scope) (start : Position) (c : TokenCursor) : Prop :=
  ∀ nest c', (classDef context scope start c).1.faults = [] → e.AtStart nest c c' →
    c.isAt (.keyword .kClass) = true → (∃ t ∈ tokens, t.kind ≠ .dedent ∧ t.position = start) →
    e.ScanEmbeds nest c c' (classDef context scope start c)
      (classDef context' scope (start.lower e.lines) c')

/-- What belongs to a header is scanned alike in a line. -/
def SuiteEmbeds (scope : Scope) (c : TokenCursor) : Prop :=
  ∀ nest c', (suite context scope c).2.1.faults = [] → e.OnLine nest c c' →
    (suite context' scope c').1 = (suite context scope c).1.map (DocLiteral.lower e.lines) ∧
      e.ScanEmbeds nest c c' (suite context scope c).2 (suite context' scope c').2

/-- A function is scanned alike, wherever it begins. -/
def FunctionEmbeds (scope : Scope) (decorators : List Bytes) (start : Position) (c : TokenCursor) :
    Prop :=
  ∀ nest c', (functionDef context scope decorators start c).1.faults = [] → e.AtStart nest c c' →
    c.isAt (.keyword .kDef) = true → (∃ t ∈ tokens, t.kind ≠ .dedent ∧ t.position = start) →
    e.ScanEmbeds nest c c' (functionDef context scope decorators start c)
      (functionDef context' scope decorators (start.lower e.lines) c')

variable {e} {nest : Nat} {c c' d d' : TokenCursor} {scan scan' : Findings × TokenCursor}

namespace ScanEmbeds

/-- The same from further back. -/
theorem behind (h : e.ScanEmbeds nest d d' scan scan') (halong : Along c c' d d') :
    e.ScanEmbeds nest c c' scan scan' := by
  refine ⟨h.found, halong.trans h.along, h.start, fun hne => ?_⟩
  have hlength := halong.length_le
  by_cases hd : d.after = []
  · have hzero : d.length = 0 := by rw [length, hd]; rfl
    have hpos : 0 < c.length := List.length_pos_iff.2 hne
    have hle := h.along.length_le
    omega
  · exact Nat.lt_of_lt_of_le (h.forward hd) hlength

/-- Something found in front of a scan. -/
theorem append {found found' : Findings} (h : e.ScanEmbeds nest c c' scan scan')
    (hfound : found' = found.lower e.lines) :
    e.ScanEmbeds nest c c' (found ++ scan.1, scan.2) (found' ++ scan'.1, scan'.2) where
  found := by rw [hfound, h.found, Findings.lower_append]
  along := h.along
  start := h.start
  forward := h.forward

/-- Where a scan goes on to, the last solid token is the same. -/
theorem lastStop_eq (h : e.ScanEmbeds nest c c' scan scan')
    (hsolid : ∃ t ∈ c.before, t.isSolid = true) :
    scan'.2.lastStop = scan.2.lastStop.lower e.lines := by
  obtain ⟨t, ht, hsolid⟩ := hsolid
  exact h.start.lastStop_eq ⟨t, h.along.before_subset ht, hsolid⟩

end ScanEmbeds

/-! ### Statements -/

/-- A mark of the layout is passed over. -/
theorem scanEmbeds_mark (h : e.AtStart nest c c') (hat : (c.isAt .newline || c.isAt .dedent) = true)
    (hnest : e.behind ≠ [] → c.isAt .dedent = true → nest = 0) :
    e.ScanEmbeds nest c c' ({}, c.advance) ({}, c'.advance) := by
  obtain ⟨t, rest, hafter, hkind⟩ : ∃ t rest, c.after = t :: rest ∧
      (t.kind = .newline ∨ t.kind = .dedent) := by
    rcases Bool.or_eq_true_iff.1 hat with hat | hat
    · obtain ⟨t, rest, hafter, hkind⟩ := exists_cons_of_isAt hat (by decide)
      exact ⟨t, rest, hafter, .inl hkind⟩
    · obtain ⟨t, rest, hafter, hkind⟩ := exists_cons_of_isAt hat (by decide)
      exact ⟨t, rest, hafter, .inr hkind⟩
  refine ⟨rfl, .skip c' (length_pos_of_cons hafter), h.advance hafter fun hbehind hbegins => ?_,
    fun _ => ?_⟩
  · rcases hkind with hkind | hkind
    · exact hbegins.behind_newline hkind
    · obtain rfl : nest = 0 := hnest hbehind (by rw [isAt_eq hafter, hkind]; rfl)
      exact hbegins.behind_surplus hkind
  · have hpos := length_pos_of_cons hafter
    show c.advance.length < c.length
    rw [length_advance]
    omega

theorem statementEmbeds_mark {scope : Scope} (hmark : (c.isAt .newline || c.isAt .dedent) = true) :
    e.StatementEmbeds scope c := by
  intro nest c' _ h hne hnest
  have hat (kind : TokenKind) : c'.isAt kind = c.isAt kind :=
    h.toEmbeds.isAt_eq (fun _ => hne) kind
  rw [statement_mark hmark, statement_mark (c := c') (by rwa [hat, hat])]
  exact scanEmbeds_mark h hmark hnest

/-- What is not passed over as a mark of the layout ends no block. -/
theorem kind_ne_dedent {t : Token} {rest : List Token} (hafter : c.after = t :: rest)
    (hmark : ¬ (c.isAt .newline || c.isAt .dedent) = true) : t.kind ≠ .dedent := by
  simp only [Bool.or_eq_true, isAt_eq hafter, beq_iff_eq, not_or] at hmark
  exact hmark.2

/-- What stands in front of a definition, and in front of a statement that is none. -/
theorem AtStart.definition (h : e.AtStart nest c c') {t : Token} {rest : List Token}
    (hafter : c.after = t :: rest) (hmark : ¬ (c.isAt .newline || c.isAt .dedent) = true)
    (hindent : ¬ c.isAt .indent = true) :
    (Scanner.decorators c').1 = (Scanner.decorators c).1 ∧
      Along c c' (Scanner.skipAsync (Scanner.decorators c).2)
        (Scanner.skipAsync (Scanner.decorators c').2) ∧
      e.AtStart nest (Scanner.skipAsync (Scanner.decorators c).2)
        (Scanner.skipAsync (Scanner.decorators c').2) ∧
      ((Scanner.skipAsync (Scanner.decorators c).2).isAt (.keyword .kDef) = true ∨
        e.OnLine nest (Scanner.skipAsync (Scanner.decorators c).2)
          (Scanner.skipAsync (Scanner.decorators c').2)) ∧
      c'.position = c.position.lower e.lines := by
  simp only [Bool.or_eq_true, isAt_eq hafter, beq_iff_eq, not_or] at hmark hindent
  obtain ⟨d', hdecorators, halong, hstart, hline⟩ := h.decorators fun _ => by simp [hafter]
  -- In either case there is a statement on the line.
  have honLine : e.OnLine nest (Scanner.decorators c).2 d' := by
    rcases hline with hsame | hwithin
    · have hafter' : (Scanner.decorators c).2.after = t :: rest := by rw [hsame, hafter]
      exact hstart.onLine_of_ne hafter' hmark.1 hindent hmark.2
    · exact ⟨hstart.toEmbeds, hwithin⟩
  obtain ⟨hskip, hhere, hasync⟩ := hstart.skipAsync honLine.ne_nil
  rw [hdecorators]
  refine ⟨rfl, halong.trans hskip, hhere, ?_, h.position_eq hafter fun _ => hmark.2⟩
  rcases hasync with hsame | hdef
  · refine .inr ⟨hhere.toEmbeds, fun hbehind => ?_⟩
    rw [hsame]
    exact honLine.within hbehind
  · exact .inl hdef

theorem BlockEmbeds.statement {scope : Scope} (hblock : e.BlockEmbeds scope c.advance)
    (hmark : ¬ (c.isAt .newline || c.isAt .dedent) = true) (hindent : c.isAt .indent = true) :
    e.StatementEmbeds scope c := by
  intro nest c' hfaults h hne _
  obtain ⟨t, rest, hafter, hkind⟩ := exists_cons_of_isAt hindent (by decide)
  have hat (kind : TokenKind) : c'.isAt kind = c.isAt kind :=
    h.toEmbeds.isAt_eq (fun _ => hne) kind
  rw [statement_indented hmark hindent] at hfaults ⊢
  rw [statement_indented (c := c') (by rwa [hat, hat]) (by rwa [hat])]
  refine (hblock nest c'.advance hfaults ?_).behind (.skip c' (length_pos_of_cons hafter))
  exact h.advance hafter fun _ hbegins => hbegins.behind_indent hkind

section Definition

variable {scope : Scope} (hmark : ¬ (c.isAt .newline || c.isAt .dedent) = true)
  (hindent : ¬ c.isAt .indent = true)
include hmark hindent

theorem FunctionEmbeds.statement
    (hdef : (skipAsync (decorators c).2).isAt (.keyword .kDef) = true)
    (hfunction : e.FunctionEmbeds scope (decorators c).1 c.position
      (skipAsync (decorators c).2)) : e.StatementEmbeds scope c := by
  intro nest c' hfaults h hne _
  obtain ⟨t, rest, hafter⟩ := List.exists_cons_of_ne_nil hne
  have hat (kind : TokenKind) : c'.isAt kind = c.isAt kind :=
    h.toEmbeds.isAt_eq (fun _ => hne) kind
  obtain ⟨hdecorators, halong, hhere, -, hposition⟩ := h.definition hafter hmark hindent
  have hwritten := kind_ne_dedent hafter hmark
  obtain ⟨word, more, hword, -⟩ := exists_cons_of_isAt hdef (by decide)
  have hdef' := (hhere.isAt_eq (fun _ => by simp [hword]) _).trans hdef
  rw [statement_def hmark hindent hdef] at hfaults ⊢
  rw [statement_def (c := c') (by rwa [hat, hat]) (by rwa [hat]) hdef', hdecorators, hposition]
  refine (hfunction nest _ hfaults hhere hdef ⟨t, ?_, hwritten, ?_⟩).behind halong
  · exact h.after_mem t (hafter ▸ List.mem_cons_self)
  · rw [position_eq hafter]

variable (hdef : ¬ (skipAsync (decorators c).2).isAt (.keyword .kDef) = true)
include hdef

theorem ClassEmbeds.statement
    (hclass : (skipAsync (decorators c).2).isAt (.keyword .kClass) = true)
    (hclassDef : e.ClassEmbeds scope c.position (skipAsync (decorators c).2)) :
    e.StatementEmbeds scope c := by
  intro nest c' hfaults h hne _
  obtain ⟨t, rest, hafter⟩ := List.exists_cons_of_ne_nil hne
  have hat (kind : TokenKind) : c'.isAt kind = c.isAt kind :=
    h.toEmbeds.isAt_eq (fun _ => hne) kind
  obtain ⟨-, halong, hhere, hline, hposition⟩ := h.definition hafter hmark hindent
  have hwritten := kind_ne_dedent hafter hmark
  have hword := hline.resolve_left hdef |>.isAt_eq
  rw [statement_class hmark hindent hdef hclass] at hfaults ⊢
  rw [statement_class (c := c') (by rwa [hat, hat]) (by rwa [hat]) (by rwa [hword]) (by rwa [hword]),
    hposition]
  refine (hclassDef nest _ hfaults hhere hclass ⟨t, ?_, hwritten, ?_⟩).behind halong
  · exact h.after_mem t (hafter ▸ List.mem_cons_self)
  · rw [position_eq hafter]

/-- Decorators in front of no definition have no names, as nothing is reported. -/
theorem SimpleEmbeds.statement
    (hclass : ¬ (skipAsync (decorators c).2).isAt (.keyword .kClass) = true)
    (hsimple : e.SimpleEmbeds scope (skipAsync (decorators c).2)) : e.StatementEmbeds scope c := by
  intro nest c' hfaults h hne _
  obtain ⟨t, rest, hafter⟩ := List.exists_cons_of_ne_nil hne
  have hat (kind : TokenKind) : c'.isAt kind = c.isAt kind :=
    h.toEmbeds.isAt_eq (fun _ => hne) kind
  obtain ⟨hdecorators, halong, hhere, hline, -⟩ := h.definition hafter hmark hindent
  have honLine := hline.resolve_left hdef
  rw [statement_simple hmark hindent hdef hclass] at hfaults ⊢
  rw [statement_simple (c := c') (by rwa [hat, hat]) (by rwa [hat]) (by rwa [honLine.isAt_eq])
    (by rwa [honLine.isAt_eq]), hdecorators]
  obtain ⟨hmissing, hfound⟩ := List.append_eq_nil_iff.1 hfaults
  have hnames : (decorators c).1.isEmpty = true := by
    by_contra hnames
    rw [if_neg hnames] at hmissing
    cases hmissing
  simp only [if_pos hnames]
  exact ((hsimple nest _ hfound honLine).append rfl).behind halong

end Definition

/-! ### Statements that define nothing -/

section Simple

variable {scope : Scope}

theorem BlockEmbeds.simple (hcompound : (isCompound (statementTokens c) &&
      ((statementEnd c).skipIf .newline).isAt .indent) = true)
    (hblock : e.BlockEmbeds (blockScope scope) ((statementEnd c).skipIf .newline).advance) :
    e.SimpleEmbeds scope c := by
  intro nest c' hfaults h
  obtain ⟨hbehind, hstart⟩ := h.behindStatement
  obtain ⟨t, rest, hafter, hkind⟩ :=
    exists_cons_of_isAt (Bool.and_eq_true_iff.1 hcompound).2 (by decide)
  have hcompound' : (isCompound (statementTokens c') &&
      ((statementEnd c').skipIf .newline).isAt .indent) = true := by
    rwa [h.statementTokens, isCompound_map e.kind_move, hstart.isAt_plain (by decide) rfl]
  rw [simpleStatement_compound hcompound] at hfaults ⊢
  rw [simpleStatement_compound hcompound', h.statementTokens, countsOf_map e.kind_move]
  have hfound := (List.append_eq_nil_iff.1 hfaults).2
  have hadvance := h.behindStatement.2.advance hafter fun _ hbegins => hbegins.behind_indent hkind
  refine ((hblock nest _ hfound hadvance).append rfl).behind
    (hbehind.trans (.skip _ (length_pos_of_cons hafter)))

theorem simpleEmbeds_line (hline : ¬ (isCompound (statementTokens c) &&
      ((statementEnd c).skipIf .newline).isAt .indent) = true) : e.SimpleEmbeds scope c := by
  intro nest c' hfaults h
  obtain ⟨hbehind, hstart⟩ := h.behindStatement
  have hline' : ¬ (isCompound (statementTokens c') &&
      ((statementEnd c').skipIf .newline).isAt .indent) = true := by
    rwa [h.statementTokens, isCompound_map e.kind_move, hstart.isAt_plain (by decide) rfl]
  rw [simpleStatement_line hline, simpleStatement_line hline', h.statementTokens,
    countsOf_map e.kind_move]
  have hstatement : e.ScanEmbeds nest c c'
      ({ counts := countsOf (statementTokens c) }, (statementEnd c).skipIf .newline)
      ({ counts := countsOf (statementTokens c) }, (statementEnd c').skipIf .newline) :=
    ⟨rfl, hbehind, hstart, length_behindStatement_lt⟩
  cases scope.kind == .atModule && scope.collected with
  | false => exact hstatement
  | true =>
      rw [if_pos rfl, if_pos rfl]
      rcases h.constant? with
        ⟨hnone, hnone'⟩ | ⟨d, next, next', hsome, hsome', hnext, hstart', hlength⟩
      · rw [hnone, hnone']
        exact hstatement
      · rw [hsome, hsome']
        exact ⟨rfl, hnext, hstart', fun _ => hlength⟩

end Simple

/-! ### Blocks -/

section Block

variable {scope : Scope}

/-- Inside a block something is ahead, in front of other tokens. -/
theorem AtStart.ne_nil (h : e.AtStart (nest + 1) c c') (hbehind : e.behind ≠ []) : c.after ≠ [] :=
  (h.begins hbehind).ne_nil

theorem AtStart.block_end_eq (h : e.AtStart (nest + 1) c c') :
    (c'.isAt .dedent || c'.atEnd) = (c.isAt .dedent || c.atEnd) := by
  rw [h.toEmbeds.isAt_eq h.ne_nil, h.toEmbeds.atEnd_eq h.ne_nil]

theorem blockEmbeds_end (hend : (c.isAt .dedent || c.atEnd) = true) : e.BlockEmbeds scope c := by
  intro nest c' _ h
  rw [block_end hend, block_end (h.block_end_eq.trans hend)]
  have halong := h.toEmbeds.skipIf_along (show TokenKind.dedent ≠ .eof by decide) rfl
  cases hat : c.isAt .dedent with
  | true =>
      obtain ⟨t, rest, hafter, hkind⟩ := exists_cons_of_isAt hat (by decide)
      have hat' : c'.isAt .dedent = true := (h.toEmbeds.isAt_eq h.ne_nil _).trans hat
      refine ⟨rfl, halong, ?_, fun _ => ?_⟩
      · rw [skipIf_of_isAt hat, skipIf_of_isAt hat']
        exact h.advance hafter fun _ hbegins => hbegins.behind_dedent hkind
      · show (c.skipIf .dedent).length < c.length
        rw [skipIf_of_isAt hat]
        exact length_advance_lt hat (by decide)
  | false =>
      rw [hat, Bool.false_or, atEnd, List.isEmpty_iff] at hend
      exact ⟨rfl, halong, ⟨h.toEmbeds.along halong, fun hbehind => absurd hend (h.ne_nil hbehind)⟩,
        fun hne => absurd hend hne⟩

/-- In a block that goes on, something is ahead. -/
theorem ne_nil_of_more (hmore : ¬ (c.isAt .dedent || c.atEnd) = true) : c.after ≠ [] := fun hnil =>
  hmore (by rw [atEnd, hnil]; exact Bool.or_true _)

/-- Whether a scan went forward is the same in both files. -/
theorem ScanEmbeds.length_lt_iff (h : e.ScanEmbeds nest c c' scan scan') (hc : e.Embeds c c') :
    scan'.2.length < c'.length ↔ scan.2.length < c.length := by
  rw [h.start.length_eq, hc.length_eq]
  omega

theorem BlockEmbeds.more (hmore : ¬ (c.isAt .dedent || c.atEnd) = true)
    (hshorter : (Scanner.statement context scope c).2.length < c.length)
    (hstatement : e.StatementEmbeds scope c)
    (hblock : e.BlockEmbeds scope (Scanner.statement context scope c).2) : e.BlockEmbeds scope c := by
  intro nest c' hfaults h
  have hne := ne_nil_of_more hmore
  rw [block_more hmore hshorter] at hfaults ⊢
  obtain ⟨hfirst, hrest⟩ := List.append_eq_nil_iff.1 hfaults
  have hdedent (_ : e.behind ≠ []) (hat : c.isAt .dedent = true) : nest + 1 = 0 :=
    absurd (Bool.or_eq_true_iff.2 (.inl hat)) hmore
  have hscan := hstatement (nest + 1) c' hfirst h hne hdedent
  have hmore' : ¬ (c'.isAt .dedent || c'.atEnd) = true := by rwa [h.block_end_eq]
  rw [block_more hmore' ((hscan.length_lt_iff h.toEmbeds).2 hshorter)]
  exact ((hblock nest _ hrest hscan.start).append hscan.found).behind hscan.along

/-- As nothing is reported, no statement stays where it is. -/
theorem StatementEmbeds.block (hmore : ¬ (c.isAt .dedent || c.atEnd) = true)
    (hsame : ¬ (Scanner.statement context scope c).2.length < c.length)
    (hstatement : e.StatementEmbeds scope c) : e.BlockEmbeds scope c := by
  intro nest c' hfaults h
  rw [Scanner.block, if_neg hmore] at hfaults
  simp only at hfaults
  rw [if_neg hsame] at hfaults
  have hdedent (_ : e.behind ≠ []) (hat : c.isAt .dedent = true) : nest + 1 = 0 :=
    absurd (Bool.or_eq_true_iff.2 (.inl hat)) hmore
  have hscan := hstatement (nest + 1) c' hfaults h (ne_nil_of_more hmore) hdedent
  exact absurd (hscan.forward (ne_nil_of_more hmore)) hsame

end Block

/-! ### Definitions -/

section Definition

variable {scope : Scope} {start : Position}

/-- A header that is refused is reported. -/
theorem classEmbeds_refused (hnone : (classHeader c).header = none) :
    e.ClassEmbeds scope start c := by
  intro nest c' hfaults h hat _
  rw [classDef_of_none hnone] at hfaults
  obtain ⟨header, d, d', heq, -⟩ := h.classHeader hat hfaults
  rw [heq] at hnone
  cases hnone

theorem functionEmbeds_refused {decorators : List Bytes}
    (hnone : (functionHeader context.source c).header = none) :
    e.FunctionEmbeds scope decorators start c := by
  intro nest c' hfaults h hat _
  rw [functionDef_of_none hnone] at hfaults
  obtain ⟨header, d, d', heq, -⟩ := h.functionHeader hat hfaults
  rw [heq] at hnone
  cases hnone

theorem SuiteEmbeds.classDef {header : ClassHeader} (hsome : (classHeader c).header = some header)
    (hsuite : e.SuiteEmbeds ⟨.inClass, isCollectedClass scope⟩ (classHeader c).rest) :
    e.ClassEmbeds scope start c := by
  intro nest c' hfaults h hat ⟨t, ht, hkind, hstart⟩
  have hlength := length_classHeader_lt hsome
  rw [classDef_of_some hsome] at hfaults ⊢
  obtain ⟨hreported, -⟩ := List.append_eq_nil_iff.1 hfaults
  obtain ⟨hheader, hbody⟩ := List.append_eq_nil_iff.1 hreported
  obtain ⟨_, d, d', heq, heq', halong, hline, hsolid, u, hu, hword, hlast⟩ := h.classHeader hat hheader
  rw [heq] at hsome hsuite hbody hlength ⊢
  cases hsome
  have hsome' : (classHeader c').header = some (header.lower e.lines) := by rw [heq']
  rw [classDef_of_some hsome', heq']
  obtain ⟨hdocstring, hscan⟩ := hsuite nest d' hbody hline
  have hcodes := e.codes_eq t ht hkind u hu hword
  rw [hstart, hlast] at hcodes
  refine ⟨?_, halong.trans hscan.along, hscan.start,
    fun _ => Nat.lt_of_le_of_lt hscan.along.length_le hlength⟩
  dsimp only
  rw [Findings.lower_append, Findings.lower_ofFaults, hdocstring, hscan.found,
    hscan.lastStop_eq hsolid, classFindings_lower scope _ _ _ hcodes]
  rfl

theorem SuiteEmbeds.functionDef {decorators : List Bytes} {header : FunctionHeader}
    (hsome : (functionHeader context.source c).header = some header)
    (hsuite : e.SuiteEmbeds ⟨.inFunction, false⟩ (functionHeader context.source c).rest) :
    e.FunctionEmbeds scope decorators start c := by
  intro nest c' hfaults h hat ⟨t, ht, hkind, hstart⟩
  have hlength := length_functionHeader_lt hsome
  rw [functionDef_of_some hsome] at hfaults ⊢
  obtain ⟨hreported, -⟩ := List.append_eq_nil_iff.1 hfaults
  obtain ⟨hheader, hbody⟩ := List.append_eq_nil_iff.1 hreported
  obtain ⟨_, d, d', heq, heq', halong, hline, hsolid, u, hu, hword, hlast⟩ := h.functionHeader hat hheader
  rw [heq] at hsome hsuite hbody hlength ⊢
  cases hsome
  have hsome' : (functionHeader context'.source c').header = some (header.lower e.lines) := by
    rw [heq']
  rw [functionDef_of_some hsome', heq']
  obtain ⟨hdocstring, hscan⟩ := hsuite nest d' hbody hline
  have hcodes := e.codes_eq t ht hkind u hu hword
  rw [hstart, hlast] at hcodes
  refine ⟨?_, halong.trans hscan.along, hscan.start,
    fun _ => Nat.lt_of_le_of_lt hscan.along.length_le hlength⟩
  have hparameters : ownParameters scope.kind decorators (header.lower e.lines).parameters =
      (ownParameters scope.kind decorators header.parameters).map (Parameter.lower e.lines) :=
    ownParameters_lower _ _ _ _
  dsimp only
  rw [Findings.lower_append, Findings.lower_ofFaults, hdocstring, hscan.found, hparameters,
    hscan.lastStop_eq hsolid, ← functionFindings_lower scope _ _ _ _ hcodes]
  rfl

end Definition

/-! ### Suites -/

section Suite

variable {scope : Scope} {literal : DocLiteral} {rest : TokenCursor}

section Block

variable (hline : c.isAt .newline = true) (hindent : c.advance.isAt .indent = true)
include hline hindent

/-- The line ends and a block begins. -/
theorem OnLine.indented (h : e.OnLine nest c c') :
    c'.isAt .newline = true ∧ c'.advance.isAt .indent = true ∧
      Along c c' c.advance.advance c'.advance.advance ∧
      e.AtStart (nest + 1) c.advance.advance c'.advance.advance := by
  obtain ⟨t, rest, hafter, hnewline⟩ := exists_cons_of_isAt hline (by decide)
  obtain ⟨u, more, hmore, hkind⟩ := exists_cons_of_isAt hindent (by decide)
  have hstart := h.behind_newline hafter hnewline
  exact ⟨(h.isAt_eq _).trans hline,
    (hstart.toEmbeds.isAt_eq (fun _ => by simp [hmore]) _).trans hindent,
    .trans (.skip c' (length_pos_of_cons hafter)) (.skip _ (length_pos_of_cons hmore)),
    hstart.advance hmore fun _ hbegins => hbegins.behind_indent hkind⟩

theorem BlockEmbeds.suite_docstring
    (hdocstring : docstring? c.advance.advance = some (literal, rest))
    (hblock : e.BlockEmbeds scope rest) : e.SuiteEmbeds scope c := by
  intro nest c' hfaults h
  obtain ⟨hline', hindent', halong, hstart⟩ := h.indented hline hindent
  obtain ⟨rest', hdocstring', hnext, hrest⟩ := hstart.docstring? hdocstring
  rw [suite_block_docstring hline hindent hdocstring] at hfaults ⊢
  rw [suite_block_docstring hline' hindent' hdocstring']
  exact ⟨rfl, (hblock nest rest' hfaults hrest).behind (halong.trans hnext)⟩

theorem BlockEmbeds.suite (hnone : docstring? c.advance.advance = none)
    (hblock : e.BlockEmbeds scope c.advance.advance) : e.SuiteEmbeds scope c := by
  intro nest c' hfaults h
  obtain ⟨hline', hindent', halong, hstart⟩ := h.indented hline hindent
  rw [suite_block hline hindent hnone] at hfaults ⊢
  rw [suite_block hline' hindent' (hstart.docstring?_none hnone)]
  exact ⟨rfl, (hblock nest _ hfaults hstart).behind halong⟩

end Block

/-- A suite that is not indented is reported. -/
theorem suiteEmbeds_unindented (hline : c.isAt .newline = true)
    (hindent : ¬ c.advance.isAt .indent = true) : e.SuiteEmbeds scope c := by
  intro nest c' hfaults _
  rw [suite_unindented hline (by simpa using hindent)] at hfaults
  cases hfaults

section Line

variable (hline : ¬ c.isAt .newline = true)
include hline

/-- A docstring is the whole line, or in front of the rest of it. -/
theorem SimpleEmbeds.suite_docstring (hdocstring : docstring? c = some (literal, rest))
    (hsimple : ¬ (rest.atEnd || rest.before.head?.any fun t => t.kind == .newline) = true →
      e.SimpleEmbeds scope rest) : e.SuiteEmbeds scope c := by
  intro nest c' hfaults h
  have hline' : ¬ c'.isAt .newline = true := by rwa [h.isAt_eq]
  obtain ⟨rest', hdocstring', hnext, last, more, hbefore, hrest⟩ := h.docstring? hdocstring
  obtain ⟨more', hbefore'⟩ := (h.toEmbeds.along hnext).head_before hbefore
  have hdone : (rest'.before.head?.any fun t => t.kind == .newline) =
      rest.before.head?.any fun t => t.kind == .newline := by
    rw [hbefore, hbefore', List.head?_cons, List.head?_cons, Option.any_some, Option.any_some,
      e.kind_move]
  have hforward (_ : c.after ≠ []) : rest.length < c.length := length_docstring?_lt hdocstring
  rw [Scanner.suite_docstring hline hdocstring] at hfaults ⊢
  rw [Scanner.suite_docstring hline' hdocstring', hdone]
  rcases hrest with ⟨hlast, hstart⟩ | ⟨hlast, honLine⟩
  · have hend : (rest.before.head?.any fun t => t.kind == .newline) = true := by
      rw [hbefore, List.head?_cons, Option.any_some, hlast]
      rfl
    rw [hend, Bool.or_true, Bool.or_true, if_pos rfl, if_pos rfl]
    exact ⟨rfl, rfl, hnext, hstart, hforward⟩
  · rw [honLine.toEmbeds.atEnd_eq honLine.ne_nil]
    split
    next hend =>
      have hnil : e.behind = [] := by
        by_contra hne
        rw [hbefore, List.head?_cons, Option.any_some, beq_eq_false_iff_ne.2 hlast, Bool.or_false,
          atEnd, List.isEmpty_iff] at hend
        exact honLine.ne_nil hne hend
      exact ⟨rfl, rfl, hnext, ⟨honLine.toEmbeds, fun hne => absurd hnil hne⟩, hforward⟩
    next hmore =>
      rw [if_neg hmore] at hfaults
      exact ⟨rfl, (hsimple hmore nest rest' hfaults honLine).behind hnext⟩

theorem SimpleEmbeds.suite (hnone : docstring? c = none)
    (hsimple : ¬ c.atEnd = true → e.SimpleEmbeds scope c) : e.SuiteEmbeds scope c := by
  intro nest c' hfaults h
  have hline' : ¬ c'.isAt .newline = true := by rwa [h.isAt_eq]
  rw [suite_line hline hnone] at hfaults ⊢
  rw [suite_line hline' (h.docstring?_none hnone), h.toEmbeds.atEnd_eq h.ne_nil]
  split
  next hend =>
    rw [atEnd, List.isEmpty_iff] at hend
    exact ⟨rfl, rfl, .refl c c', ⟨h.toEmbeds, fun hne => absurd hend (h.ne_nil hne)⟩,
      fun hne => absurd hend hne⟩
  next hmore =>
    rw [if_neg hmore] at hfaults
    exact ⟨rfl, hsimple hmore nest c' hfaults h⟩

end Line

end Suite

/-! ### The scan -/

/-- Every construct is scanned alike in both files. -/
theorem scan_embeds (e : Embedding context context' tokens) :
    (∀ scope c, e.StatementEmbeds scope c) ∧
      (∀ scope c, e.SimpleEmbeds scope c) ∧
      (∀ scope c, e.BlockEmbeds scope c) ∧
      (∀ scope start c, e.ClassEmbeds scope start c) ∧
      (∀ scope c, e.SuiteEmbeds scope c) ∧
      ∀ scope decorators start c, e.FunctionEmbeds scope decorators start c := by
  apply statement.mutual_induct context e.StatementEmbeds e.SimpleEmbeds e.BlockEmbeds
    e.ClassEmbeds e.SuiteEmbeds e.FunctionEmbeds
  -- A statement: a mark of the layout, a block, a definition, or another statement.
  case case1 =>
    intro scope c hmark
    exact statementEmbeds_mark hmark
  case case2 =>
    intro scope c hmark hindent hblock
    exact hblock.statement hmark hindent
  case case3 =>
    intro scope c hmark hindent decorated here hdef hfunction
    exact hfunction.statement hmark hindent hdef
  case case4 =>
    intro scope c hmark hindent decorated here hdef hclass hclassDef
    exact hclassDef.statement hmark hindent hdef hclass
  case case5 =>
    intro scope c hmark hindent decorated here hdef hclass hsimple
    exact hsimple.statement hmark hindent hdef hclass
  -- A statement that defines nothing, with its block or with the docstring of its constant.
  case case6 =>
    intro scope c words behind hcompound hblock
    exact hblock.simple hcompound
  case case7 =>
    intro scope c words behind hline _ _
    exact simpleEmbeds_line hline
  case case8 =>
    intro scope c words behind hline _ _ _ _
    exact simpleEmbeds_line hline
  -- A block: its end, or a statement and the rest.  A statement always goes forward.
  case case9 =>
    intro scope c hend
    exact blockEmbeds_end hend
  case case10 =>
    intro scope c hmore first hshorter hfirst hblock
    exact hblock.more hmore hshorter hfirst
  case case11 =>
    intro scope c hmore first hsame hfirst
    exact hfirst.block hmore hsame
  -- A definition: its header is refused, or its suite follows.
  case case12 =>
    intro scope start c scan hnone
    exact classEmbeds_refused hnone
  case case13 =>
    intro scope start c scan header hsome hsuite
    exact hsuite.classDef hsome
  -- A suite: a block below the header, or a statement behind it.
  case case14 =>
    intro scope c hline here hindent literal rest hdocstring hblock
    exact hblock.suite_docstring hline hindent hdocstring
  case case15 =>
    intro scope c hline here hindent hnone hblock
    exact hblock.suite hline hindent hnone
  case case16 =>
    intro scope c hline here hindent
    exact suiteEmbeds_unindented hline hindent
  case case17 =>
    intro scope c hline literal rest hdocstring hend
    exact SimpleEmbeds.suite_docstring hline hdocstring fun hmore => absurd hend hmore
  case case18 =>
    intro scope c hline literal rest hdocstring hmore hsimple
    exact SimpleEmbeds.suite_docstring hline hdocstring fun _ => hsimple
  case case19 =>
    intro scope c hline hnone hend
    exact SimpleEmbeds.suite hline hnone fun hmore => absurd hend hmore
  case case20 =>
    intro scope c hline hnone hmore hsimple
    exact SimpleEmbeds.suite hline hnone fun _ => hsimple
  case case21 =>
    intro scope decorators start c scan hnone
    exact functionEmbeds_refused hnone
  case case22 =>
    intro scope decorators start c scan header hsome hsuite
    exact hsuite.functionDef hsome

/-- All statements of a file, and then what is behind it. -/
theorem statements_embed (hfaults : (statements context c).faults = []) (h : e.AtStart 0 c c') :
    statements context' c' =
      (statements context c).lower e.lines ++ statements context' (c'.skip c.length) := by
  induction c using statements.induct context generalizing c'
  case case1 c hend =>
    have hnil : c.after = [] := by rwa [atEnd, List.isEmpty_iff] at hend
    have hlength : c.length = 0 := by rw [length, hnil]; rfl
    rw [statements.eq_1 context c, if_pos hend, hlength, skip_zero]
    exact (Findings.empty_append _).symm
  case case2 c hmore first hshorter ih =>
    have hne : c.after ≠ [] := fun hnil => hmore (by rw [atEnd, hnil]; rfl)
    have heq : statements context c = first.1 ++ statements context first.2 := by
      rw [statements, if_neg hmore]
      exact if_pos hshorter
    rw [heq] at hfaults
    obtain ⟨hfirst, hrest⟩ := List.append_eq_nil_iff.1 hfaults
    have hscan := e.scan_embeds.1 ⟨.atModule, true⟩ c 0 c' hfirst h hne fun _ _ => rfl
    have hshorter' := (hscan.length_lt_iff h.toEmbeds).2 hshorter
    have hmore' : ¬ c'.atEnd = true := by rwa [h.toEmbeds.atEnd_eq fun _ => hne]
    rw [heq, statements, if_neg hmore']
    simp only
    rw [if_pos hshorter', ih hrest hscan.start, hscan.found, hscan.along.skip_length,
      Findings.lower_append, Findings.append_assoc]
  case case3 c hmore first hsame =>
    have hne : c.after ≠ [] := fun hnil => hmore (by rw [atEnd, hnil]; rfl)
    rw [statements, if_neg hmore] at hfaults
    simp only at hfaults
    rw [if_neg hsame] at hfaults
    have hscan := e.scan_embeds.1 ⟨.atModule, true⟩ c 0 c' hfaults h hne fun _ _ => rfl
    exact absurd (hscan.forward hne) hsame

end Embedding

end DocLint
