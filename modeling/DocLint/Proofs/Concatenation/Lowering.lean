import DocLint.Source.Scanner

/-!
# Moving down by some lines

The same text further down in a file: everything that has a position is moved down by a number of
lines, and what is read in the file moves with it.

* `Position.lower` and the like: what is moved.
* `Position.after_lower`, `DocLiteral.ofText_lower`: the places of what is read from a token.
* `Declaration.lower`, `Findings.lower`: what a scan finds.
-/

namespace DocLint

/-- The position that many lines further down. -/
def Position.lower (lines : UInt32) (p : Position) : Position := ⟨p.line + lines, p.column⟩

/-- The span that many lines further down. -/
def Span.lower (lines : UInt32) (s : Span) : Span := ⟨s.start.lower lines, s.stop.lower lines⟩

/-- The literal that many lines further down. -/
def DocLiteral.lower (lines : UInt32) (literal : DocLiteral) : DocLiteral :=
  { literal with
    start := literal.start.lower lines
    bodyStart := literal.bodyStart.lower lines
    stop := literal.stop.lower lines }

/-- The name that many lines further down. -/
def DeclaredName.lower (lines : UInt32) (name : DeclaredName) : DeclaredName :=
  { name with span := name.span.lower lines }

/-- The parameter that many lines further down. -/
def Parameter.lower (lines : UInt32) (p : Parameter) : Parameter :=
  { p with span := p.span.lower lines }

/-- What is declared, that many lines further down. -/
def DeclarationForm.lower (lines : UInt32) : DeclarationForm → DeclarationForm
  | moduleDecl => moduleDecl
  | classDecl name parameters => classDecl (name.lower lines) (parameters.map (Parameter.lower lines))
  | functionDecl name parameters counts =>
    functionDecl (name.lower lines) (parameters.map (Parameter.lower lines)) counts
  | methodDecl name parameters counts =>
    methodDecl (name.lower lines) (parameters.map (Parameter.lower lines)) counts
  | constantDecl name => constantDecl (name.lower lines)

/-- The declaration that many lines further down. -/
def Declaration.lower (lines : UInt32) (d : Declaration) : Declaration :=
  { d with
    form := d.form.lower lines
    span := d.span.lower lines
    docstring := d.docstring.map (DocLiteral.lower lines) }

/-- The header of a function that many lines further down. -/
def Scanner.FunctionHeader.lower (lines : UInt32) (header : FunctionHeader) : FunctionHeader where
  name := header.name.lower lines
  parameters := header.parameters.map (Parameter.lower lines)
  lastLine := header.lastLine + lines

/-- The header of a class that many lines further down. -/
def Scanner.ClassHeader.lower (lines : UInt32) (header : ClassHeader) : ClassHeader where
  name := header.name.lower lines
  lastLine := header.lastLine + lines

/-- The token that many lines further down, behind that many more bytes. -/
def Token.lower (lines : UInt32) (bytes : Nat) (t : Token) : Token :=
  { t with position := t.position.lower lines, offset := t.offset + bytes }

/-- The comment that many lines further down, behind that many more bytes. -/
def Comment.lower (lines : UInt32) (bytes : Nat) (c : Comment) : Comment :=
  { c with position := c.position.lower lines, offset := c.offset + bytes }

/-- The fault that many lines further down. -/
def Fault.lower (lines : UInt32) (f : Fault) : Fault := { f with position := f.position.lower lines }

/-- The findings that many lines further down. -/
def Findings.lower (lines : UInt32) (f : Findings) : Findings where
  declarations := f.declarations.map (Declaration.lower lines)
  counts := f.counts
  initializer := f.initializer.map (List.map (Parameter.lower lines))
  faults := f.faults.map (Fault.lower lines)

/-- The item that many lines further down, behind that many more bytes. -/
def LexItem.lower (lines : UInt32) (bytes : Nat) : LexItem → LexItem
  | token t => token (t.lower lines bytes)
  | comment c => comment (c.lower lines bytes)
  | fault f => fault (f.lower lines)

/-! ### No lines further down -/

namespace Position

@[simp] theorem lower_zero (p : Position) : p.lower 0 = p := by
  rw [lower, UInt32.add_zero]

end Position

@[simp] theorem Span.lower_zero (s : Span) : s.lower 0 = s := by
  rw [lower, Position.lower_zero, Position.lower_zero]

@[simp] theorem Token.lower_zero (t : Token) : t.lower 0 0 = t := by
  rw [lower, Position.lower_zero]
  rfl

@[simp] theorem Declaration.lower_zero (d : Declaration) : d.lower 0 = d := by
  have hname (name : DeclaredName) : name.lower 0 = name := by
    rw [DeclaredName.lower, Span.lower_zero]
  have hparameters (list : List Parameter) : list.map (Parameter.lower 0) = list := by
    refine (List.map_congr_left fun p _ => ?_).trans (List.map_id list)
    rw [Parameter.lower, Span.lower_zero]
    rfl
  have hform (form : DeclarationForm) : form.lower 0 = form := by
    cases form <;> simp only [DeclarationForm.lower, hname, hparameters]
  have hdocstring (docstring : Option DocLiteral) : docstring.map (DocLiteral.lower 0) = docstring := by
    cases docstring with
    | none => rfl
    | some literal => simp only [Option.map_some, DocLiteral.lower, Position.lower_zero]
  rw [lower, hform, Span.lower_zero, hdocstring]

namespace Position

variable (lines : UInt32) (p : Position)

@[simp] theorem line_lower : (p.lower lines).line = p.line + lines := rfl

@[simp] theorem column_lower : (p.lower lines).column = p.column := rfl

theorem step_lower (c : UInt8) : (p.lower lines).step c = (p.step c).lower lines := by
  unfold step
  split
  · rw [lower, lower, UInt32.add_assoc, UInt32.add_comm lines, ← UInt32.add_assoc]
  · rfl

theorem after_lower (s : Bytes) : (p.lower lines).after s = (p.after s).lower lines := by
  induction s generalizing p with
  | nil => rfl
  | cons c s ih => rw [after_cons, after_cons, step_lower, ih]

theorem right_lower (n : Nat) : (p.lower lines).right n = (p.right n).lower lines := rfl

end Position

namespace Token

variable (lines : UInt32) (bytes : Nat) (t : Token)

@[simp] theorem kind_lower : (t.lower lines bytes).kind = t.kind := rfl

@[simp] theorem text_lower : (t.lower lines bytes).text = t.text := rfl

theorem stop_lower : (t.lower lines bytes).stop = t.stop.lower lines :=
  Position.after_lower lines t.position t.text

theorem span_lower : (t.lower lines bytes).span = t.span.lower lines := by
  rw [span, stop_lower]
  rfl

end Token

theorem DocLiteral.ofText_lower (lines : UInt32) (text : Bytes) (start : Position) :
    DocLiteral.ofText text (start.lower lines) = (DocLiteral.ofText text start).lower lines := by
  simp only [DocLiteral.ofText, DocLiteral.lower, Position.right_lower, Position.after_lower,
    Position.column_lower]

end DocLint
