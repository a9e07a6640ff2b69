import DocLint.Check.Registry
import DocLint.Proofs.Docstring.Fidelity
import DocLint.Proofs.Text.Extent

/-!
# What findings cover

A check that looks at a declaration and a docstring of a source text covers spans of this text with
its findings: their ends are on lines of the text and in order.  Two checks reach beyond the end of a
line: the one for double blank lines starts at the indentation of the docstring, and the one for a
missing extended summary covers three columns, be the delimiter as long or not.

* `Diagnostic.IsPlaced`: what is said of every finding.
* `Declaration.IsPlaced`, `Docstring.IsPlaced`: declarations and docstrings of a source text.
* `Places`: the judgment about checks, closed under the ways in which they are put together.
* `isIn_column`, `isIn_leading`, `isIn_occurrence`, `isIn_lines`: spans along the lines of a docstring.
* `isIn_name`, `isIn_anchor`: spans of sections and of entries.
-/

namespace DocLint

open Bytes

/-- The column of the position is on its line of the source text, or just behind this line. -/
def Position.FitsLine (source : Bytes) (p : Position) : Prop :=
  ∃ line, (lines source)[p.line.toNat - 1]? = some line ∧ p.column.toNat ≤ 1 + line.length

/-- The finding covers lines of the source text, from its beginning to its end; with two exceptions
the columns are columns of these lines. -/
structure Diagnostic.IsPlaced (source : Bytes) (d : Diagnostic) : Prop where
  ordered : d.span.start.compare d.span.stop ≠ .gt
  first_line : 1 ≤ d.span.start.line.toNat
  last_line : d.span.stop.line.toNat ≤ (lines source).length
  first_column : 1 ≤ d.span.start.column.toNat
  start_fits : d.code ≠ Code.gl03.name → d.span.start.FitsLine source
  stop_fits : d.code ≠ Code.gl03.name → d.code ≠ Code.es01.name → d.span.stop.FitsLine source

theorem Span.IsIn.isPlaced {source : Bytes} {d : Diagnostic} (h : d.span.IsIn source) :
    d.IsPlaced source := by
  obtain ⟨hline, -, hcolumn, hstart⟩ := h.start.column_le
  obtain ⟨-, hlines, -, hstop⟩ := h.stop.column_le
  exact ⟨Position.compare_ne_gt_iff.2 h.ordered, hline, hlines, hcolumn, fun _ => hstart,
    fun _ _ => hstop⟩

/-- The name and the parameters of the declaration are spans of the source text, and so is what leads
from its beginning to the end of its name. -/
structure Declaration.IsPlaced (source : Bytes) (d : Declaration) : Prop where
  anchor : d.anchor.IsIn source
  front : (Span.mk d.span.start d.anchor.stop).IsIn source
  parameters : ∀ p ∈ d.parameters, p.span.IsIn source

/-- The docstring stands in the source text line by line, below its beginning. -/
structure Docstring.IsPlaced (source : Bytes) (doc : Docstring) : Prop where
  pieces : ∀ l ∈ doc.pieces, StandsAt source l.position l.text
  fragments : ∀ f ∈ doc.fragments, f.span.IsIn source
  descending : doc.lines.Pairwise fun a b => a.position.line.toNat < b.position.line.toNat
  summary : ∀ s ∈ doc.summary, s.summary <:+: doc.lines
  start : doc.start.IsPlaceOf source
  opening : ∀ first ∈ doc.lines.head?, (Span.mk doc.start first.position).IsIn source

namespace Docstring

variable {doc : Docstring}

theorem mem_pieces_of_mem_lines {line : DocLine} (h : line ∈ doc.lines) : line ∈ doc.pieces :=
  List.mem_append_left _ (List.mem_append_left _ h)

theorem mem_pieces_of_mem_summary {s : DocSummary} (hs : doc.summary = some s) {line : DocLine}
    (h : line ∈ s.summary ++ s.extended.getD []) : line ∈ doc.pieces := by
  refine List.mem_append_left _ (List.mem_append_right _ ?_)
  rw [hs]
  exact h

/-- The lines and the names of an entry belong to the docstring. -/
theorem mem_of_mem_entries {name : Bytes} {entry : ParameterEntry} (h : entry ∈ doc.entries name) :
    (∀ l ∈ entry.pieces, l ∈ doc.pieces) ∧ ∀ f ∈ entry.fragments, f ∈ doc.fragments := by
  unfold entries at h
  split at h
  · cases h
  next s hs =>
    have hmem : s ∈ doc.sections := List.mem_of_find?_eq_some hs
    unfold DocSection.parameters at h
    split at h
    next found hcontents =>
      refine ⟨fun l hl => ?_, fun f hf => ?_⟩
      · refine List.mem_append_right _ (List.mem_flatMap.2 ⟨s, hmem, ?_⟩)
        rw [hcontents]
        exact List.mem_flatMap.2 ⟨entry, h, hl⟩
      · refine List.mem_flatMap.2 ⟨s, hmem, List.mem_cons_of_mem _ ?_⟩
        rw [hcontents]
        exact List.mem_flatMap.2 ⟨entry, h, hf⟩
    · cases h

end Docstring

namespace Check

/-- Whatever the check found is placed. -/
def Places (source : Bytes) (result : CheckResult) : Prop :=
  ∀ findings, result = .ok findings → ∀ f ∈ findings, f.IsPlaced source

section Closure

variable {source : Bytes}

theorem places_silent : Places source silent := by
  intro findings h
  cases h
  simp

theorem report_eq_finding {code : Code} {span : Span} {suggestion : Option Bytes}
    {arguments : List (Bytes × Bytes)} {d : Diagnostic}
    (h : code.report span suggestion arguments = .ok d) :
    d = code.finding span suggestion arguments := by
  unfold Code.report at h
  cases hfill : code.template.fill arguments with
  | error failure =>
      rw [hfill] at h
      cases h
  | ok message =>
      rw [hfill] at h
      cases h
      rfl

/-- A report about a span of the source text. -/
theorem report_isPlaced {code : Code} {span : Span} (h : span.IsIn source)
    (suggestion : Option Bytes) (arguments : List (Bytes × Bytes)) :
    ∀ d, code.report span suggestion arguments = .ok d → d.IsPlaced source := by
  intro d hd
  rw [report_eq_finding hd]
  exact h.isPlaced

theorem places_error {failure : Failure} : Places source (.error failure) := nofun

theorem places_one {result : Except Failure Diagnostic}
    (h : ∀ d, result = .ok d → d.IsPlaced source) : Places source (one result) := by
  intro findings hfindings
  cases result with
  | error failure => cases hfindings
  | ok d =>
      cases hfindings
      simpa using h d rfl

theorem places_mapM {α : Type} {f : α → Except Failure Diagnostic} {xs : List α}
    (h : ∀ x ∈ xs, ∀ d, f x = .ok d → d.IsPlaced source) : Places source (xs.mapM f) := by
  induction xs with
  | nil => exact places_silent
  | cons x xs ih =>
      intro findings hfindings
      rw [List.mapM_cons] at hfindings
      cases hx : f x with
      | error failure =>
          rw [hx] at hfindings
          cases hfindings
      | ok d =>
          cases hxs : xs.mapM f with
          | error failure =>
              rw [hx, hxs] at hfindings
              cases hfindings
          | ok ds =>
              rw [hx, hxs] at hfindings
              cases hfindings
              intro e he
              rcases List.mem_cons.1 he with rfl | he
              · exact h x List.mem_cons_self e hx
              · exact ih (fun y hy => h y (List.mem_cons_of_mem x hy)) ds hxs e he

theorem places_ofParameters {d : Declaration} {result : CheckResult} (h : Places source result) :
    Places source (ofParameters d result) := by
  unfold ofParameters
  split
  · exact h
  · exact places_silent

theorem places_ofCallable {d : Declaration} {result : CheckResult} (h : Places source result) :
    Places source (ofCallable d result) := by
  unfold ofCallable
  split
  · exact h
  · exact places_silent

end Closure

/-! ### What belongs to a docstring -/

theorem mem_pieces_of_mem_summaryLines {doc : Docstring} {line : DocLine}
    (h : line ∈ summaryLines doc) : line ∈ doc.pieces := by
  unfold summaryLines at h
  split at h
  · cases h
  next s hs => exact Docstring.mem_pieces_of_mem_summary hs (List.mem_append_left _ h)

/-- The entries of both sections about parameters. -/
theorem mem_entries_of_mem {doc : Docstring} {entry : ParameterEntry}
    (h : entry ∈ parameterEntries doc ++ otherEntries doc) :
    ∃ name, entry ∈ doc.entries name := by
  rcases List.mem_append.1 h with h | h
  · exact ⟨_, h⟩
  · exact ⟨_, h⟩

/-! ### Places found by offsets -/

/-- Neighbours among lines that descend. -/
theorem lt_of_mem_zip_tail {lines : List DocLine}
    (h : lines.Pairwise fun a b => a.position.line.toNat < b.position.line.toNat) {a b : DocLine}
    (hab : (a, b) ∈ lines.zip lines.tail) :
    a ∈ lines ∧ b ∈ lines ∧ a.position.line.toNat < b.position.line.toNat := by
  induction lines with
  | nil => cases hab
  | cons first rest ih =>
      cases rest with
      | nil => cases hab
      | cons second rest =>
          obtain ⟨hfirst, hrest⟩ := List.pairwise_cons.1 h
          rcases List.mem_cons.1 hab with heq | hab
          · cases heq
            exact ⟨List.mem_cons_self, List.mem_cons_of_mem _ List.mem_cons_self,
              hfirst b List.mem_cons_self⟩
          · obtain ⟨ha, hb, hlt⟩ := ih hrest hab
            exact ⟨List.mem_cons_of_mem _ ha, List.mem_cons_of_mem _ hb, hlt⟩

/-- A directive stands behind the leading whitespace, with its dots and its name. -/
theorem bareDirective?_length {s name : Bytes} {k : Nat} (h : bareDirective? s = some (k, name)) :
    k = leading s ∧ 3 + name.length ≤ (stripStart s).length := by
  unfold bareDirective? at h
  dsimp only at h
  split at h
  next hdots =>
    have hdots := (List.isPrefixOf_iff_prefix.1 hdots).length_le
    split at h
    · cases h
    · split at h
      · cases h
      · cases h
        refine ⟨rfl, ?_⟩
        rw [List.length_take, List.length_drop]
        have hthree : (ascii ".. ").length = 3 := rfl
        omega
  · cases h

theorem tightLength_le (atStart : Bool) (s : Bytes) : tightLength atStart s ≤ s.length := by
  unfold tightLength
  split
  · exact Nat.le_refl _
  next c r =>
    split
    next htight =>
      cases r with
      | nil => simp at htight
      | cons => simp
    · split
      next htight =>
        cases r with
        | nil => simp at htight
        | cons => simp
      · split
        · exact Nat.le_refl _
        · split
          next hcolon =>
            rw [Bool.and_eq_true] at hcolon
            have hlength := congrArg List.length (takeWhile_append_stripStart (c :: r))
            have hpos := (List.isPrefixOf_iff_prefix.1 hcolon.2).length_le
            rw [List.length_append] at hlength
            have hone : (ascii ":").length = 1 := rfl
            show ((c :: r).takeWhile isSpace).length + 1 ≤ (c :: r).length
            omega
          · exact Nat.zero_le _

/-- A tight colon ends in the header. -/
theorem mem_tightColons_le {s : Bytes} {place : Nat × Nat} (h : place ∈ tightColons s) :
    place.2 ≤ s.length := by
  have hfrom : ∀ skip offset (t : Bytes), ∀ p ∈ tightColonsFrom skip offset t,
      p.2 ≤ offset + t.length := by
    intro skip offset t
    fun_induction tightColonsFrom skip offset t with
    | case1 => simp
    | case2 skip offset _ r ih =>
      intro p hp
      have := ih p hp
      rw [List.length_cons]
      omega
    | case3 offset c r _ ih =>
      intro p hp
      have := ih p hp
      rw [List.length_cons]
      omega
    | case4 offset c r n hn ih =>
      intro p hp
      have hle := tightLength_le (offset == 0) (c :: r)
      rw [hn] at hle
      rcases List.mem_cons.1 hp with rfl | hp
      · show offset + n + 1 ≤ offset + (c :: r).length
        omega
      · have := ih p hp
        rw [List.length_cons]
        omega
  simpa using hfrom 0 0 s place h

variable {source : Bytes} (hsize : source.length < 2 ^ 31) {d : Declaration}
  (hd : d.IsPlaced source) {doc : Docstring} (hdoc : doc.IsPlaced source)

/-! ### Places in a docstring -/

section Places

include hsize hdoc

/-- A column of a line, for a finding about the line. -/
theorem isIn_column {line : DocLine} (hline : line ∈ doc.pieces) {j k : Nat} (hjk : j ≤ k)
    (hk : k ≤ line.text.length) : (Span.mk (line.column j) (line.column k)).IsIn source :=
  Span.isIn_columns (hdoc.pieces line hline) hsize hjk hk

theorem isIn_leading {line : DocLine} (hline : line ∈ doc.pieces) {n : Nat}
    (hn : n ≤ (stripStart line.text).length) :
    (Span.ofLength (line.column line.leading) n).IsIn source := by
  have hlength := congrArg List.length (takeWhile_append_stripStart line.text)
  rw [List.length_append] at hlength
  refine Span.isIn_ofLength (hdoc.pieces line hline) hsize ?_
  show (line.text.takeWhile isSpace).length + n ≤ line.text.length
  omega

omit hsize in
theorem isIn_name {s : DocSection} (hs : s ∈ doc.sections) : s.name.span.IsIn source :=
  hdoc.fragments s.name (List.mem_flatMap.2 ⟨s, hs, List.mem_cons_self⟩)

/-- An entry is at its name, its first type or its header. -/
theorem isIn_anchor {name : Bytes} {entry : ParameterEntry} (h : entry ∈ doc.entries name) :
    entry.anchor.IsIn source := by
  obtain ⟨hpieces, hfragments⟩ := Docstring.mem_of_mem_entries h
  have hfragment {f : Fragment} (hf : f ∈ entry.fragments) : f.span.IsIn source :=
    hdoc.fragments f (hfragments f hf)
  unfold ParameterEntry.anchor
  split
  next found _ hname => exact hfragment (by simp [ParameterEntry.fragments, hname])
  next type rest _ htypes => exact hfragment (by simp [ParameterEntry.fragments, htypes])
  · have hheader := isIn_column hsize hdoc (hpieces _ List.mem_cons_self)
      (Nat.zero_le entry.header.text.length) (Nat.le_refl _)
    simpa [DocLine.column, DocLine.stop] using hheader

/-- A text that occurs in a line. -/
theorem isIn_occurrence {line : DocLine} (hline : line ∈ doc.pieces) {t : Bytes} {k : Nat}
    (h : t.OccursAt k line.text) : (Span.ofLength (line.column k) t.length).IsIn source :=
  Span.isIn_ofLength (hdoc.pieces line hline) hsize h.length_le

/-- A line of the docstring above another one. -/
theorem isIn_lines {above below : DocLine} (habove : above ∈ doc.pieces)
    (hbelow : below ∈ doc.pieces) (h : above.position.line.toNat < below.position.line.toNat)
    {j k : Nat} (hj : j ≤ above.text.length) (hk : k ≤ below.text.length) :
    (Span.mk (above.column j) (below.column k)).IsIn source :=
  Span.isIn_of_line_lt ((hdoc.pieces above habove).isPlaceOf_right hsize hj)
    ((hdoc.pieces below hbelow).isPlaceOf_right hsize hk) h

end Places

end Check

end DocLint
