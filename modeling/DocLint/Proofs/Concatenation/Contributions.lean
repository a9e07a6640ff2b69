import DocLint.Proofs.Concatenation.Headers
import DocLint.Proofs.Grammar.Findings

/-!
# What statements contribute, inside another file

Findings move down with the statements that they come from.

* `Findings.lower_append`: the findings of some statements and of those behind them.
* `functionFindings_lower`, `classFindings_lower`: what definitions contribute.
* `OnLine.constant?`: the constant that a simple statement declares.
-/

namespace DocLint

open TokenKind Scanner TokenCursor

namespace Findings

variable (lines : UInt32)

theorem lower_append (a b : Findings) : (a ++ b).lower lines = a.lower lines ++ b.lower lines := by
  apply Findings.ext
  · exact List.map_append
  · rfl
  · exact Option.map_or
  · exact List.map_append

theorem lower_ofFaults (faults : List Fault) :
    (ofFaults faults).lower lines = ofFaults (faults.map (Fault.lower lines)) := rfl

end Findings

namespace Scanner

/-! ### Definitions -/

theorem ownParameters_lower (lines : UInt32) (kind : ScopeKind) (decorators : List Bytes)
    (parameters : List Parameter) :
    ownParameters kind decorators (parameters.map (Parameter.lower lines)) =
      (ownParameters kind decorators parameters).map (Parameter.lower lines) := by
  cases parameters with
  | nil => rfl
  | cons first rest =>
      rw [List.map_cons, ownParameters, ownParameters, apply_ite (List.map (Parameter.lower lines))]
      rfl

section Definitions

variable {context context' : ScanContext} {lines : UInt32} (scope : Scope) {start : Position}

theorem functionFindings_lower {header : FunctionHeader} (parameters : List Parameter)
    (docstring : Option DocLiteral) (counts : BodyCounts) (stop : Position)
    (hcodes : Noqa.codesFor (start.line + lines) (header.lastLine + lines) context'.comments =
      Noqa.codesFor start.line header.lastLine context.comments) :
    functionFindings context' scope (start.lower lines) (header.lower lines)
        (parameters.map (Parameter.lower lines)) (docstring.map (DocLiteral.lower lines)) counts
        (stop.lower lines) =
      (functionFindings context scope start header parameters docstring counts stop).lower lines := by
  have hline : Noqa.codesFor (start.lower lines).line (header.lower lines).lastLine
      context'.comments = Noqa.codesFor start.line header.lastLine context.comments := hcodes
  apply Findings.ext
  · simp only [functionFindings, Findings.lower, hline]
    split
    · simp only [List.map_cons, List.map_nil, Declaration.lower]
      split <;> rfl
    · rfl
  · rfl
  · simp only [functionFindings, Findings.lower]
    rw [apply_ite (Option.map (List.map (Parameter.lower lines)))]
    rfl
  · rfl

theorem classFindings_lower {header : ClassHeader} (docstring : Option DocLiteral) (body : Findings)
    (stop : Position)
    (hcodes : Noqa.codesFor (start.line + lines) (header.lastLine + lines) context'.comments =
      Noqa.codesFor start.line header.lastLine context.comments) :
    classFindings context' scope (start.lower lines) (header.lower lines)
        (docstring.map (DocLiteral.lower lines)) (body.lower lines) (stop.lower lines) =
      (classFindings context scope start header docstring body stop).lower lines := by
  have hline : Noqa.codesFor (start.lower lines).line (header.lower lines).lastLine
      context'.comments = Noqa.codesFor start.line header.lastLine context.comments := hcodes
  have hparameters : (body.lower lines).initializer.getD [] =
      (body.initializer.getD []).map (Parameter.lower lines) := by
    show (body.initializer.map _).getD [] = _
    cases body.initializer with
    | none => rfl
    | some parameters => rfl
  rw [classFindings, classFindings, hparameters, hline]
  split
  · rfl
  · rfl

end Definitions

/-! ### Simple statements -/

/-- The constant of a name, where the statement ends in front of the cursor. -/
def constantAt (context : ScanContext) (name : Token) (stop : TokenCursor) (literal : DocLiteral) :
    Declaration where
  form := .constantDecl ⟨name.text, name.span⟩
  span := ⟨name.position, stop.lastStop⟩
  docstring := some literal
  noqa := Noqa.codesFor name.position.line stop.position.line context.comments

theorem constantAt_lower {context context' : ScanContext} {lines : UInt32} {bytes : Nat}
    {name : Token} {stop stop' : TokenCursor} {literal : DocLiteral}
    (hposition : stop'.position = stop.position.lower lines)
    (hstop : stop'.lastStop = stop.lastStop.lower lines)
    (hcodes : Noqa.codesFor (name.position.line + lines) (stop.position.line + lines)
        context'.comments =
      Noqa.codesFor name.position.line stop.position.line context.comments) :
    constantAt context' (name.lower lines bytes) stop' (literal.lower lines) =
      (constantAt context name stop literal).lower lines := by
  rw [constantAt, hposition, hstop, Token.span_lower]
  exact Declaration.mk.injEq _ _ _ _ _ _ _ _ ▸ ⟨rfl, rfl, rfl, hcodes⟩

section Constant

variable {context : ScanContext} {c : TokenCursor} {name : Token} {rest : List Token}

theorem constant?_nil (h : c.after = []) : constant? context c = none := by
  rw [constant?, h]

theorem constant?_undocumented (h : docstring? ((statementEnd c).skipIf .newline) = none) :
    constant? context c = none := by
  rw [constant?]
  dsimp only
  rw [h]
  split
  · rfl
  · exact ite_self _

theorem constant?_documented (hafter : c.after = name :: rest) {literal : DocLiteral}
    {next : TokenCursor}
    (h : docstring? ((statementEnd c).skipIf .newline) = some (literal, next)) :
    constant? context c =
      if isAssignment c.after &&
          ((statementEnd c).skipIf .newline).position.line ==
            (statementEnd c).position.line + 1 then
        some (constantAt context name (statementEnd c) literal, next)
      else none := by
  rw [constant?]
  dsimp only
  rw [h, hafter]
  rfl

end Constant

variable {α : Type} {move : Token → Token} (hmove : ∀ t, (move t).kind = t.kind)
include hmove

theorem countsOf_map (tokens : List Token) : countsOf (tokens.map move) = countsOf tokens := by
  simp only [countsOf, List.countP_map, Function.comp_def, hmove]

theorem isCompound_map (tokens : List Token) : isCompound (tokens.map move) = isCompound tokens := by
  rw [isCompound, List.getLast?_map, Option.any_map]
  simp only [hmove]
  rfl

end Scanner

namespace Embedding

variable {context context' : ScanContext} {tokens : List Token}
  {e : Embedding context context' tokens} {nest : Nat} {c c' : TokenCursor}

namespace OnLine

theorem isAssignment_eq (h : e.OnLine nest c c') :
    isAssignment c'.after = isAssignment c.after := by
  rw [h.after_eq]
  match hafter : c.after with
  | [] =>
      have hnil : e.behind = [] := by
        by_contra hne
        exact h.ne_nil hne hafter
      rw [hnil]
      rfl
  | [name] =>
      by_cases hkind : name.kind = .identifier
      · have hnil : e.behind = [] := by
          by_contra hne
          exact h.rest_ne_nil hafter (by rw [hkind]; decide) hne rfl
        rw [hnil]
        rfl
      · cases hbehind : e.behind with
        | nil => rfl
        | cons u more => simp [isAssignment, e.kind_move, hkind]
  | name :: t :: rest =>
      simp only [List.map_cons, List.cons_append, isAssignment, e.kind_move]

section Below

/-! In front of something on the next line there is the newline that ends the statement. -/

variable (h : e.OnLine nest c c') {t : Token} {rest : List Token}
  (hafter : ((Scanner.statementEnd c).skipIf .newline).after = t :: rest)
include h hafter

theorem exists_newline :
    ∃ mark more, (Scanner.statementEnd c).after = mark :: more ∧ mark.kind = .newline ∧
      (Scanner.statementEnd c').position = (Scanner.statementEnd c).position.lower e.lines := by
  obtain ⟨-, hline⟩ := h.statementEnd
  have hpos := length_pos_of_cons hafter
  obtain ⟨mark, more, hmark⟩ :=
    List.exists_cons_of_length_pos (Nat.lt_of_lt_of_le hpos (length_skipIf_le _ _))
  have hnewline := after_statementEnd hmark
  exact ⟨mark, more, hmark, hnewline, hline.position_eq hmark fun _ => by rw [hnewline]; decide⟩

/-- What stands on the line below stands there in both files. -/
theorem nextLine_eq (hkind : t.kind ≠ .dedent) :
    (((Scanner.statementEnd c').skipIf .newline).position.line ==
        (Scanner.statementEnd c').position.line + 1) =
      (((Scanner.statementEnd c).skipIf .newline).position.line ==
        (Scanner.statementEnd c).position.line + 1) := by
  obtain ⟨-, hstart⟩ := h.behindStatement
  obtain ⟨-, -, -, -, hstop⟩ := h.exists_newline hafter
  rw [hstart.position_eq hafter fun _ => hkind, hstop, Position.line_lower, Position.line_lower,
    UInt32.add_assoc, UInt32.add_comm e.lines, ← UInt32.add_assoc]
  simp

/-- What the statement assigns to is the same constant further down. -/
theorem constantAt_eq {name : Token} {more : List Token} (hfirst : c.after = name :: more)
    (hname : name.kind = .identifier) (literal : DocLiteral) :
    Scanner.constantAt context' (e.move name) (Scanner.statementEnd c') (literal.lower e.lines) =
      (Scanner.constantAt context name (Scanner.statementEnd c) literal).lower e.lines := by
  obtain ⟨-, hline⟩ := h.statementEnd
  obtain ⟨mark, behind, hmark, hnewline, hstop⟩ := h.exists_newline hafter
  have hmem := h.after_mem name (hfirst ▸ List.mem_cons_self)
  have hsolid : ∃ t ∈ (Scanner.statementEnd c).before, t.isSolid = true := by
    refine ⟨name, ?_, e.isSolid_of_name hmem hname⟩
    rw [before_statementEnd, Scanner.statementTokens, hfirst,
      List.takeWhile_cons_of_pos (by rw [hname]; rfl)]
    simp
  have hcodes := e.codes_eq name hmem (by rw [hname]; decide) mark
    (hline.after_mem mark (hmark ▸ List.mem_cons_self)) (by rw [hnewline]; decide)
  rw [← TokenCursor.position_eq hmark] at hcodes
  rw [e.move_eq name fun _ => by rw [hname]; decide,
    constantAt_lower hstop (hline.lastStop_eq hsolid) hcodes]

end Below

/-- A documented constant, whose docstring stands on the line below in both files. -/
theorem constant? (h : e.OnLine nest c c') :
    (Scanner.constant? context c = none ∧ Scanner.constant? context' c' = none) ∨
      ∃ d next next', Scanner.constant? context c = some (d, next) ∧
        Scanner.constant? context' c' = some (d.lower e.lines, next') ∧
        Along c c' next next' ∧ e.AtStart nest next next' ∧ next.length < c.length := by
  obtain ⟨hbehind, hstart⟩ := h.behindStatement
  cases hafter : c.after with
  | nil =>
      have hnil : e.behind = [] := by
        by_contra hne
        exact h.ne_nil hne hafter
      have hafter' : c'.after = [] := by rw [h.after_eq, hafter, hnil]; rfl
      rw [constant?_nil hafter, constant?_nil hafter']
      exact .inl ⟨rfl, rfl⟩
  | cons name rest =>
      cases hdocstring : Scanner.docstring? ((Scanner.statementEnd c).skipIf .newline) with
      | none =>
          exact .inl ⟨constant?_undocumented hdocstring,
            constant?_undocumented (hstart.docstring?_none hdocstring)⟩
      | some found =>
          obtain ⟨next', hdocstring', hnext, hstart'⟩ := hstart.docstring? hdocstring
          obtain ⟨-, t, more, ht, hstring, -⟩ := exists_of_docstring? hdocstring
          rw [constant?_documented hafter hdocstring,
            constant?_documented (h.after_cons hafter) hdocstring', h.isAssignment_eq,
            h.nextLine_eq ht (by rw [hstring]; decide)]
          split
          next hassigns =>
            rw [Bool.and_eq_true, hafter] at hassigns
            have hlength := Nat.lt_of_lt_of_le (length_docstring?_lt hdocstring)
              (length_statementEnd_le c)
            refine .inr ⟨_, found.2, next', rfl, ?_, hbehind.trans hnext, hstart', hlength⟩
            rw [h.constantAt_eq ht hafter (kind_of_isAssignment hassigns.1)]
          · exact .inl ⟨rfl, rfl⟩

end OnLine

end Embedding

end DocLint
