import DocLint.Check.Registry
import DocLint.Proofs.Docstring.Content
import Mathlib.Data.List.Forall2

/-!
# Retold docstrings

A docstring can be told again in such a way that rules find the same in it: its lines may get bytes
in front or behind and stand elsewhere, and the entries and sections read from them change with
them.  What rules look at is listed here once.

* `Retelling.Lawful`: what becomes of lines, entries and sections leaves alone what rules ask of
  them.
* `Docstring.Retold`: one docstring is the other one told again.
* `Lawful.column_leading`, `Lawful.column_stripEnd`, `Lawful.anchor`: where findings stand, the
  places correspond.
* `Retold.summaryLines`, `Retold.entries`, `Retold.summaryDeprecations`: what rules look up is what
  they looked up, told again.
-/

namespace DocLint

open Bytes

/-- How docstrings are told again: what becomes of a line, and of a line of a description, of an
entry, of a section, and of the position of a piece of a line. -/
structure Retelling where
  onLine : DocLine → DocLine
  /-- The number of bytes that the line gets in front. -/
  margin : DocLine → Nat
  onDescription : DocLine → DocLine
  onEntry : ParameterEntry → ParameterEntry
  onSection : DocSection → DocSection
  onPosition : Position → Position

/-- Positions correspond at both ends. -/
def Span.Both (place : Position → Position → Prop) (s s' : Span) : Prop :=
  place s.start s'.start ∧ place s.stop s'.stop

theorem Span.Both.point {place : Position → Position → Prop} {p q : Position} (h : place p q) :
    Both place (.point p) (.point q) := ⟨h, h⟩

namespace Retelling

/-- What becomes of a span. -/
def onSpan (t : Retelling) (s : Span) : Span := ⟨t.onPosition s.start, t.onPosition s.stop⟩

/-- What becomes of a piece of a line: it stands elsewhere. -/
def onFragment (t : Retelling) (f : Fragment) : Fragment := ⟨f.value, t.onSpan f.span⟩

/-- What rules ask of a line, an entry or a section stays as it is, and the places where they report
it correspond. -/
structure Lawful (t : Retelling) (place : Position → Position → Prop) : Prop where
  position : ∀ p, place p (t.onPosition p)
  right : ∀ p q, place p q → ∀ k, place (p.right k) (q.right k)
  column : ∀ line k, place (line.column k) ((t.onLine line).column (t.margin line + k))
  stop : ∀ line, place line.stop (t.onLine line).stop
  content : KeepsContent t.onLine
  leading : ∀ line : DocLine, line.isBlank = false →
    (t.onLine line).leading = t.margin line + line.leading
  tabs : ∀ line, Check.tabSpan? (t.onLine line) = (Check.tabSpan? line).map t.onSpan
  deprecations : ∀ lines,
    Check.deprecations (lines.map t.onLine) = (Check.deprecations lines).map t.onSpan
  directive : ∀ line, Check.bareDirective? (t.onLine line).text =
    (Check.bareDirective? line.text).map fun found => (t.margin line + found.1, found.2)
  sectionName : ∀ s, (t.onSection s).name = t.onFragment s.name
  parameters : ∀ s, (t.onSection s).parameters = s.parameters.map t.onEntry
  entryName : ∀ entry, (t.onEntry entry).name = entry.name.map t.onFragment
  entryTypes : ∀ entry, (t.onEntry entry).types = entry.types.map fun types =>
    types.map t.onFragment
  optionalCount : ∀ entry, (t.onEntry entry).optionalCount = entry.optionalCount
  description : ∀ entry, (t.onEntry entry).description = entry.description.map t.onDescription
  descriptions : KeepsDescriptions t.onDescription
  header : ∀ entry : ParameterEntry, Span.Both place ⟨entry.header.position, entry.header.stop⟩
    ⟨(t.onEntry entry).header.position, (t.onEntry entry).header.stop⟩
  tightColons : ∀ entry : ParameterEntry, List.Forall₂
    (fun found found' => Span.Both place
      ⟨entry.header.column found.1, entry.header.column found.2⟩
      ⟨(t.onEntry entry).header.column found'.1, (t.onEntry entry).header.column found'.2⟩)
    (Check.tightColons entry.header.text) (Check.tightColons (t.onEntry entry).header.text)

end Retelling

/-- The second docstring is the first one told again. -/
structure Docstring.Retold (t : Retelling) (place : Position → Position → Prop)
    (doc doc' : Docstring) : Prop where
  lawful : t.Lawful place
  lines_eq : doc'.lines = doc.lines.map t.onLine
  summary_eq : doc'.summary = doc.summary.map (DocSummary.map t.onLine)
  sections_eq : doc'.sections = doc.sections.map t.onSection
  start : place doc.start doc'.start
  opening : ∀ line ∈ doc.lines.head?, place line.position (t.onLine line).position
  lineAnchor : ∀ line ∈ doc.lines, place (doc.lineAnchor line) (doc'.lineAnchor (t.onLine line))
  expectedIndent : ∀ line ∈ doc.lines,
    doc'.expectedIndent (Check.lineIndex doc' (t.onLine line)) =
      t.margin line + doc.expectedIndent (Check.lineIndex doc line)
  summary_mem : ∀ line ∈ Check.summaryLines doc, line ∈ doc.lines
  summary_readable : ∀ line ∈ Check.summaryLines doc, line.isBlank = false
  deprecationLine : ∀ s, doc.summary = some s → ∀ span ∈ Check.summaryDeprecations s,
    ((t.onSpan span).start.line = Check.deprecationLine (s.map t.onLine) ↔
      span.start.line = Check.deprecationLine s)

/-! ### What is found again -/

namespace Retelling.Lawful

variable {t : Retelling} {place : Position → Position → Prop} (h : t.Lawful place)
include h

theorem span (s : Span) : Span.Both place s (t.onSpan s) := ⟨h.position _, h.position _⟩

theorem ofLength {p q : Position} (hp : place p q) (length : Nat) :
    Span.Both place (.ofLength p length) (.ofLength q length) :=
  ⟨hp, h.right p q hp length⟩

/-- The place behind the indentation of a line corresponds. -/
theorem column_leading {line : DocLine} (hline : line.isBlank = false) :
    place (line.column line.leading) ((t.onLine line).column (t.onLine line).leading) := by
  rw [h.leading line hline]
  exact h.column line line.leading

/-- So does the place of a line without its trailing whitespace. -/
theorem column_stripEnd {line : DocLine} (hline : line.isBlank = false) :
    Span.Both place
      ⟨line.column (Bytes.leading (stripEnd line.text)), line.column (stripEnd line.text).length⟩
      ⟨(t.onLine line).column (Bytes.leading (stripEnd (t.onLine line).text)),
        (t.onLine line).column (stripEnd (t.onLine line).text).length⟩ := by
  have hline' : (t.onLine line).isBlank = false := by
    rw [isBlank_of_keepsContent h.content, hline]
  have hlength {l : DocLine} (hl : l.isBlank = false) :
      (stripEnd l.text).length = l.leading + (strip l.text).length := by
    rw [stripEnd_eq_append hl, List.length_append]
    rfl
  rw [hlength hline, hlength hline', leading_stripEnd hline, leading_stripEnd hline',
    h.content line]
  refine ⟨h.column_leading hline, ?_⟩
  rw [h.leading line hline, Nat.add_assoc]
  exact h.column line _

theorem isBlank (line : DocLine) : (t.onLine line).isBlank = line.isBlank :=
  isBlank_of_keepsContent h.content line

/-- The first byte of a line is the same. -/
theorem head?_stripStart (line : DocLine) :
    (stripStart (t.onLine line).text).head? = (stripStart line.text).head? := by
  rw [← head?_strip, h.content line, head?_strip]

theorem displayName (entry : ParameterEntry) :
    (t.onEntry entry).displayName = entry.displayName := by
  unfold ParameterEntry.displayName
  rw [h.entryName, h.entryTypes]
  cases entry.name with
  | some name => rfl
  | none =>
      cases entry.types with
      | none => rfl
      | some types =>
          simp only [Option.map_none, Option.map_some, Option.getD_some, List.map_map]
          rfl

theorem anchor (entry : ParameterEntry) :
    Span.Both place entry.anchor (t.onEntry entry).anchor := by
  unfold ParameterEntry.anchor
  rw [h.entryName, h.entryTypes]
  cases entry.name with
  | some name => exact h.span name.span
  | none =>
      cases entry.types with
      | none => exact h.header entry
      | some types =>
          cases types with
          | nil => exact h.header entry
          | cons type types => exact h.span type.span

/-- The types of an entry, where it has any. -/
theorem types_getD (entry : ParameterEntry) :
    (t.onEntry entry).types.getD [] = (entry.types.getD []).map t.onFragment := by
  rw [h.entryTypes]
  cases entry.types with
  | none => rfl
  | some types => rfl

end Retelling.Lawful

namespace Docstring.Retold

variable {t : Retelling} {place : Position → Position → Prop} {doc doc' : Docstring}
  (h : doc.Retold t place doc')
include h

theorem summaryLines : Check.summaryLines doc' = (Check.summaryLines doc).map t.onLine := by
  unfold Check.summaryLines
  rw [h.summary_eq]
  cases doc.summary with
  | none => rfl
  | some s => rfl

theorem section? (name : Bytes) : doc'.section? name = (doc.section? name).map t.onSection := by
  have hname : (fun s : DocSection => s.name.value == name) ∘ t.onSection =
      fun s => s.name.value == name := by
    funext s
    rw [Function.comp_apply, h.lawful.sectionName]
    rfl
  rw [Docstring.section?, h.sections_eq, List.find?_map, hname, Docstring.section?]

theorem hasSection (name : Bytes) : doc'.hasSection name = doc.hasSection name := by
  rw [Docstring.hasSection, h.section?, Option.isSome_map, Docstring.hasSection]

theorem entries (name : Bytes) : doc'.entries name = (doc.entries name).map t.onEntry := by
  unfold Docstring.entries
  rw [h.section?]
  cases doc.section? name with
  | none => rfl
  | some s => exact h.lawful.parameters s

theorem filter_isAllowed :
    doc'.sections.filter Check.isAllowed =
      (doc.sections.filter Check.isAllowed).map t.onSection := by
  have hallowed : Check.isAllowed ∘ t.onSection = Check.isAllowed := by
    funext s
    rw [Function.comp_apply, Check.isAllowed, h.lawful.sectionName]
    rfl
  rw [h.sections_eq, List.filter_map, hallowed]

theorem summaryDeprecations (s : DocSummary) :
    Check.summaryDeprecations (s.map t.onLine) = (Check.summaryDeprecations s).map t.onSpan := by
  rw [Check.summaryDeprecations, Check.summaryDeprecations, List.map_append,
    ← h.lawful.deprecations, ← h.lawful.deprecations, DocSummary.map]
  cases s.extended with
  | none => rfl
  | some p => rfl

end Docstring.Retold

end DocLint
