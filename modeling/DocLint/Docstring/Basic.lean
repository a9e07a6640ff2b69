import DocLint.Docstring.Section
import DocLint.Docstring.Signature

/-!
# Docstrings

A docstring has an optional summary, an optional extended summary and sections.  The summary is the
first paragraph that is no signature; the extended summary is what follows it, up to the first
section.

* `paragraph_pos_of_signature`: a signature takes a line at least, so that passing over signatures
  ends.
-/

namespace DocLint

open Bytes

/-- The summary of a docstring. -/
structure DocSummary where
  /-- The lines of the summary proper. -/
  summary : Paragraph
  /-- The lines after it, without blank ones at either end. -/
  extended : Option Paragraph
deriving DecidableEq, Repr

/-- A docstring that has been read. -/
structure Docstring where
  lines : List DocLine
  start : Position
  stop : Position
  indent : UInt32
  summary : Option DocSummary
  sections : List DocSection
deriving DecidableEq, Repr

namespace DocSummary

/-- The reader stands where a paragraph could begin: not at the end, nor at a section. -/
def hasParagraph (r : LineReader) : Bool := !r.atEnd && !r.atBoundary

/-- An empty paragraph is no signature. -/
theorem paragraph_pos_of_signature {r : LineReader}
    (h : looksLikeSignature (Paragraph.flatten r.readParagraph.1) = true) :
    0 < paragraphLength r.rest ∧ r.rest ≠ [] := by
  refine ⟨Nat.pos_of_ne_zero fun hzero => ?_, fun hnil => ?_⟩
  · have : Paragraph.flatten r.readParagraph.1 = [] := by
      simp [LineReader.readParagraph, LineReader.take, hzero, Paragraph.flatten, join, strip,
        stripStart, stripEnd]
    rw [this, looksLikeSignature_nil] at h
    cases h
  · have : Paragraph.flatten r.readParagraph.1 = [] := by
      simp [LineReader.readParagraph, LineReader.take, hnil, Paragraph.flatten, join, strip,
        stripStart, stripEnd]
    rw [this, looksLikeSignature_nil] at h
    cases h

/-- Reads the summary proper: signatures are passed over where another paragraph follows. -/
def readProper (r : LineReader) : Paragraph × LineReader :=
  let paragraph := r.readParagraph
  let next := paragraph.2.skipBlank
  if looksLikeSignature (Paragraph.flatten paragraph.1) && hasParagraph next then
    readProper next
  else paragraph
termination_by r.rest.length
decreasing_by
  rename_i h
  simp only [Bool.and_eq_true] at h
  have ⟨hpos, hne⟩ := paragraph_pos_of_signature h.1
  have hlen := List.length_pos_iff.2 hne
  have hskip := LineReader.length_rest_skipBlank_le r.readParagraph.2
  have hrest : r.readParagraph.2.rest.length = r.rest.length - paragraphLength r.rest := by
    simp [LineReader.readParagraph]
  omega

/-- Reads the extended summary, which is missing where nothing but blank lines is left of it. -/
def readExtended (r : LineReader) : Option Paragraph × LineReader :=
  let next := r.skipBlank
  if hasParagraph next then
    let (lines, behind) := next.readUntilBoundary
    let extended := Paragraph.trim lines
    (if extended.isEmpty then none else some extended, behind)
  else (none, next)

/-- Reads the summary and the extended summary. -/
def read (r : LineReader) : Option DocSummary × LineReader :=
  let first := r.skipBlank
  if hasParagraph first then
    let (summary, behind) := readProper first
    let (extended, next) := readExtended behind
    (some { summary, extended }, next)
  else (none, first)

end DocSummary

namespace Docstring

/-- The sections among the lines ahead, with the flaws found on the way. -/
def readSections (indent : Nat) (r : LineReader) : List DocSection × List Flaw :=
  let here := r.skipBlank
  if here.rest = [] then ([], [])
  else
    let chunk := here.readUntilBoundary
    let more := readSections indent chunk.2
    match DocSection.ofLines here.previous indent chunk.1 with
    | none => more
    | some (found, flaws) => (found :: more.1, flaws ++ more.2)
termination_by r.rest.length
decreasing_by
  rename_i h
  have hskip := LineReader.length_rest_skipBlank_le r
  have hne : r.skipBlank.rest ≠ [] := h
  have hpos := List.length_pos_iff.2 hne
  have hchunk : r.skipBlank.readUntilBoundary.2.rest.length =
      r.skipBlank.rest.length - chunkLength r.skipBlank.rest := by
    simp [LineReader.readUntilBoundary]
  have hlen : 0 < chunkLength r.skipBlank.rest := by
    cases hrest : r.skipBlank.rest with
    | nil => contradiction
    | cons => simp [chunkLength]
  omega

/-- Reads the docstring of a literal, with the flaws found on the way. -/
def ofLiteral (literal : DocLiteral) : Docstring × List Flaw :=
  let lines := literal.lines
  let (summary, behind) := DocSummary.read { rest := lines }
  let (sections, flaws) := readSections literal.indent.toNat behind
  ({ lines, start := literal.start, stop := literal.stop, indent := literal.indent, summary,
     sections }, flaws)

/-- The first section of a name. -/
def section? (doc : Docstring) (name : Bytes) : Option DocSection :=
  doc.sections.find? fun s => s.name.value == name

/-- There is a section of that name. -/
def hasSection (doc : Docstring) (name : Bytes) : Bool := (doc.section? name).isSome

/-- The entries of the first section of a name, none if it is missing. -/
def entries (doc : Docstring) (name : Bytes) : List ParameterEntry :=
  match doc.section? name with
  | none => []
  | some s => s.parameters

/-- The leading whitespace that a line should have: the first one none, the others that of the
literal. -/
def expectedIndent (doc : Docstring) (index : Nat) : Nat := if index = 0 then 0 else doc.indent.toNat

/-- Where findings about a whole line are placed: at its beginning, but not left of the literal. -/
def lineAnchor (doc : Docstring) (line : DocLine) : Position :=
  line.position.withColumn (max line.position.column (doc.indent + 1))

end Docstring

end DocLint
