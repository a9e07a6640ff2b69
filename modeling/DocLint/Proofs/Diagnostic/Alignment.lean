import DocLint.Diagnostic.Render
import DocLint.Proofs.Text.Lines

/-!
# Reports aligned with the source

A report that shows the source consists of rows.  Two rows say what was found and where; the row with
the line of the finding follows, and in front of it the row with the line above, unless that one is
above the reference.  Carets stand below the columns of the finding, and the suggestion hangs below
the last of them.

* `ShowsLine`, `Underlines`, `HangsAt`: what stands at which column of a row.
* `length_decimal_le`: no number in the gutter is wider than the one that the gutter is made for.
* `detailed_eq_join`: the rows of a report.
* `detailed_isAligned`: their columns.
-/

namespace DocLint

namespace Bytes

/-- The byte of a row at a column; columns count from one. -/
def atColumn (row : Bytes) : Nat → Option UInt8
  | 0 => none
  | k + 1 => row[k]?

/-- A larger number has no fewer digits. -/
theorem length_decimal_le {m n : Nat} (h : m ≤ n) : (decimal m).length ≤ (decimal n).length := by
  rw [decimal, decimal, List.length_map, List.length_map]
  refine (Nat.length_toDigits_le_iff (by decide) Nat.length_toDigits_pos).2 ?_
  have hdigits : n < 10 ^ (Nat.toDigits 10 n).length :=
    (Nat.length_toDigits_le_iff (by decide) Nat.length_toDigits_pos).1 (Nat.le_refl _)
  exact Nat.lt_of_le_of_lt h hdigits

/-- A number that fits is padded to the width. -/
theorem length_padRight {width : Nat} {s : Bytes} (h : s.length ≤ width) :
    (padRight width s).length = width := by
  rw [padRight, List.length_append, List.length_replicate]
  omega

theorem newline_not_mem_decimal (n : Nat) : newline ∉ decimal n := by
  intro h
  obtain ⟨c, hc, hnewline⟩ := List.mem_map.1 h
  have hdigit := Nat.isDigit_of_mem_toDigits (by decide) (by decide) hc
  simp only [Char.isDigit, Bool.and_eq_true, decide_eq_true_eq, ge_iff_le] at hdigit
  have hvalue : c.val.toNat % 256 = 10 := congrArg UInt8.toNat hnewline
  have hlow : 48 ≤ c.val.toNat := UInt32.le_iff_toNat_le.1 hdigit.1
  have hhigh : c.val.toNat ≤ 57 := UInt32.le_iff_toNat_le.1 hdigit.2
  omega

theorem newline_not_mem_chomp {s : Bytes} (h : newline ∉ s) : newline ∉ chomp s := by
  unfold chomp
  split
  · exact fun hmem => h (List.dropLast_subset _ hmem)
  · exact h

theorem newline_not_mem_replicate {c : UInt8} (h : c ≠ newline) (n : Nat) :
    newline ∉ List.replicate n c :=
  fun hmem => h (List.eq_of_mem_replicate hmem).symm

/-- Rows that all end with a separator are joined by it, with nothing behind the last one. -/
theorem join_append_nil (b : UInt8) (rows : List Bytes) :
    join [b] (rows ++ [[]]) = rows.flatMap fun row => row ++ [b] := by
  induction rows with
  | nil => simp [join]
  | cons row rows ih =>
      have hjoin := join_append b (List.cons_ne_nil row []) (List.append_ne_nil_of_right_ne_nil rows
        (List.cons_ne_nil ([] : Bytes) []))
      have hsingle : join [b] [row] = row := by simp [join]
      rw [List.singleton_append] at hjoin
      rw [List.cons_append, hjoin, hsingle, ih, List.flatMap_cons, List.append_assoc,
        List.singleton_append]

end Bytes

namespace Diagnostic

open Bytes

/-! ### What stands at which column -/

/-- The number of digits of the line of the finding. -/
def gutter (d : Diagnostic) : Nat := (decimal d.span.start.line.toNat).length

/-- The sign below the columns of a finding. -/
def caret : UInt8 := byte '^'

/-- The row shows a line of the source: its number, padded to the gutter, a bar, and from there on the
bytes of the line without one carriage return at its end. -/
structure ShowsLine (gutter : Nat) (source : List Bytes) (n : Nat) (row : Bytes) : Prop where
  number_eq : row.take (gutter + 3) = padRight gutter (decimal n) ++ ascii " | "
  text_eq : ∃ text, source[n - 1]? = some text ∧
    ∀ column, 1 ≤ column → row.atColumn (gutter + 3 + column) = (chomp text).atColumn column

/-- The number of columns that a finding covers on its line: those up to its end, or up to the end of
the line if the finding goes on below. -/
def width (d : Diagnostic) (text : Bytes) : Int :=
  if d.span.stop.line = d.span.start.line then
    (d.span.stop.column.toNat : Int) - d.span.start.column.toNat
  else (text.drop (d.span.start.column.toNat - 1)).length

/-- The row underlines the finding: its carets begin below the first column of the finding, there are
as many of them as columns that it covers, but at least one, and nothing stands behind them. -/
structure Underlines (gutter : Nat) (d : Diagnostic) (text row : Bytes) : Prop where
  count_eq : (row.count caret : Int) = max 1 (d.width text)
  caret_iff : ∀ column, row.atColumn column = some caret ↔
    gutter + 3 + d.span.start.column.toNat ≤ column ∧
      column < gutter + 3 + d.span.start.column.toNat + row.count caret
  length_eq : row.length + 1 = gutter + 3 + d.span.start.column.toNat + row.count caret

/-- The row has a text from a column on, and spaces between the bar and this column. -/
structure HangsAt (gutter column : Nat) (text row : Bytes) : Prop where
  text_eq : row.drop (column - 1) = text
  blank : ∀ k, gutter + 3 ≤ k → k < column → row.atColumn k = some space

/-! ### The rows of a report -/

/-- What stands in front of the carets. -/
def margin (d : Diagnostic) : Bytes :=
  List.replicate d.gutter space ++ ascii " | " ++
    List.replicate (d.span.start.column - 1).toNat space

/-- The rows that say what was found and where. -/
def headerRows (path : Bytes) (d : Diagnostic) : List Bytes :=
  [ascii "error[" ++ d.code ++ ascii "]: " ++ d.message,
    List.replicate d.gutter space ++ ascii "--> " ++ path ++ ascii ":" ++ d.span.start.render]

/-- The row with the line of a number, if the source has it. -/
def lineRows (d : Diagnostic) (source : List Bytes) (n : Nat) : List Bytes :=
  match sourceLine? source n with
  | none => []
  | some text => [padRight d.gutter (decimal n) ++ ascii " | " ++ text]

/-- The row with some carets. -/
def caretRow (d : Diagnostic) (carets : Nat) : Bytes := d.margin ++ List.replicate carets caret

/-- The rows of the suggestion, below the last of some carets. -/
def suggestionRows (d : Diagnostic) (carets : Nat) : List Bytes :=
  match d.suggestion with
  | none => []
  | some text =>
    let below := d.margin ++ List.replicate (carets - 1) space
    [below ++ ascii "|", below ++ text]

variable {path : Bytes} {d : Diagnostic} {source : List Bytes} {reference : Position}

/-- A report is made up of its rows, each with a newline behind it. -/
theorem detailed_eq_join {carets : Nat}
    (h : carets = d.caretCount ((sourceLine? source d.span.start.line.toNat).getD [])) :
    d.detailed path source reference = join [newline] (d.headerRows path ++
      (d.shownLines reference).flatMap (d.lineRows source) ++ d.caretRow carets ::
        d.suggestionRows carets ++ [[]]) := by
  have hrow (n : Nat) : (match sourceLine? source n with
      | none => []
      | some text => padRight d.gutter (decimal n) ++ ascii " | " ++ text ++ [newline]) =
      (d.lineRows source n).flatMap fun row => row ++ [newline] := by
    rw [lineRows]
    cases sourceLine? source n with
    | none => rfl
    | some text => exact (List.append_nil _).symm
  have hshown : ((d.shownLines reference).flatMap fun line => match sourceLine? source line with
      | none => []
      | some text => padRight d.gutter (decimal line) ++ ascii " | " ++ text ++ [newline]) =
      ((d.shownLines reference).flatMap (d.lineRows source)).flatMap fun row => row ++ [newline] := by
    rw [funext hrow, List.flatMap_assoc]
  rw [join_append_nil, List.flatMap_append, List.flatMap_append, ← hshown, detailed, ← h,
    List.flatMap_cons, suggestionRows, caretRow, margin]
  dsimp only
  cases d.suggestion with
  | none =>
      simp only [headerRows, List.flatMap_cons, List.flatMap_nil, List.append_nil, List.append_assoc]
      rfl
  | some text =>
      simp only [headerRows, List.flatMap_cons, List.flatMap_nil, List.append_nil, List.append_assoc]
      rfl

/-! ### Their columns -/

/-- The row with a line shows it. -/
theorem lineRows_of_mem {n : Nat} (hfirst : 1 ≤ n) (hlast : n ≤ source.length)
    (hwidth : (decimal n).length ≤ d.gutter) :
    ∃ row, d.lineRows source n = [row] ∧ ShowsLine d.gutter source n row := by
  have hget : source[n - 1]? = some source[n - 1] := List.getElem?_eq_getElem (by omega)
  have hline : sourceLine? source n = some (chomp source[n - 1]) := by
    rw [sourceLine?, if_neg (by omega), hget]
    rfl
  have hfront : (padRight d.gutter (decimal n) ++ ascii " | ").length = d.gutter + 3 := by
    rw [List.length_append, length_padRight hwidth]
    rfl
  refine ⟨padRight d.gutter (decimal n) ++ ascii " | " ++ chomp source[n - 1], ?_, ?_, _, hget, ?_⟩
  · rw [lineRows, hline]
  · exact List.take_left' hfront
  · intro column hcolumn
    obtain ⟨k, rfl⟩ := Nat.exists_eq_add_of_le' hcolumn
    show (padRight d.gutter (decimal n) ++ ascii " | " ++ chomp source[n - 1])[d.gutter + 3 + k]? =
      (chomp source[n - 1])[k]?
    rw [List.getElem?_append_right (by omega), hfront, Nat.add_sub_cancel_left]

theorem caret_not_mem_margin : caret ∉ d.margin := by
  have hbar : caret ∉ ascii " | " := by decide
  have hspace (n : Nat) : caret ∉ List.replicate n space := fun h =>
    absurd (List.eq_of_mem_replicate h) (by decide)
  rw [margin, List.mem_append, List.mem_append]
  rintro ((h | h) | h)
  · exact hspace _ h
  · exact hbar h
  · exact hspace _ h

/-- The rows with the lines of a finding: the line above, if it is not above the reference, and then
the line itself. -/
theorem exists_contextRows (reference : Position) (hfirst : 1 ≤ d.span.start.line.toNat)
    (hlast : d.span.start.line.toNat ≤ source.length) :
    ∃ above, (d.shownLines reference).flatMap (d.lineRows source) =
        above ++ d.lineRows source d.span.start.line.toNat ∧
      if reference.line < d.span.start.line ∧ 2 ≤ d.span.start.line.toNat then
        ∃ row, above = [row] ∧ ShowsLine d.gutter source (d.span.start.line.toNat - 1) row
      else above = [] := by
  unfold shownLines
  by_cases hbelow : reference.line < d.span.start.line
  · refine ⟨d.lineRows source (d.span.start.line.toNat - 1), ?_, ?_⟩
    · rw [if_pos hbelow, List.flatMap_cons, List.flatMap_singleton]
    · split
      next hline =>
        have hone : 1 ≤ d.span.start.line.toNat - 1 := Nat.le_sub_one_of_lt hline.2
        have hwithin : d.span.start.line.toNat - 1 ≤ source.length := by omega
        exact lineRows_of_mem hone hwithin (length_decimal_le (Nat.sub_le _ 1))
      next hline =>
        -- The finding is on the first line of the source.
        have hless : ¬ 2 ≤ d.span.start.line.toNat := fun htwo => hline ⟨hbelow, htwo⟩
        have hone : d.span.start.line.toNat - 1 = 0 := by omega
        rw [lineRows, sourceLine?, if_pos hone]
  · refine ⟨[], ?_, ?_⟩
    · rw [if_neg hbelow, List.flatMap_singleton, List.nil_append]
    · rw [if_neg fun h => hbelow h.1]

section Columns

variable (hcolumn : 1 ≤ d.span.start.column.toNat)
include hcolumn

theorem toNat_column_pred : (d.span.start.column - 1).toNat = d.span.start.column.toNat - 1 :=
  UInt32.toNat_sub_of_le _ _ (UInt32.le_iff_toNat_le.2 hcolumn)

theorem length_margin : d.margin.length + 1 = d.gutter + 3 + d.span.start.column.toNat := by
  rw [margin, List.length_append, List.length_append, List.length_replicate, List.length_replicate,
    toNat_column_pred hcolumn]
  show d.gutter + 3 + (d.span.start.column.toNat - 1) + 1 = _
  omega

/-- Behind the bar the margin is blank. -/
theorem margin_blank {k : Nat} (hbar : d.gutter + 3 ≤ k) (hk : k ≤ d.margin.length) :
    d.margin.atColumn k = some space := by
  have hlength := length_margin hcolumn
  obtain ⟨j, rfl⟩ : ∃ j, k = j + 1 := ⟨k - 1, by omega⟩
  have hfront : (List.replicate d.gutter space ++ ascii " |").length = d.gutter + 2 := by
    rw [List.length_append, List.length_replicate]
    rfl
  have hsplit : d.margin = (List.replicate d.gutter space ++ ascii " |") ++
      List.replicate ((d.span.start.column - 1).toNat + 1) space := by
    rw [margin, List.replicate_succ, show ascii " | " = ascii " |" ++ [space] from rfl]
    simp
  show d.margin[j]? = some space
  rw [hsplit, List.getElem?_append_right (by omega), hfront, List.getElem?_replicate, if_pos]
  rw [toNat_column_pred hcolumn]
  omega

/-- The width of the finding, at least one, is the number of its carets. -/
theorem caretCount_eq (text : Bytes) : (d.caretCount text : Int) = max 1 (d.width text) := by
  unfold caretCount width
  dsimp only
  split
  · omega
  · rw [List.length_drop]
    omega

theorem underlines_caretRow (text : Bytes) :
    Underlines d.gutter d text (d.caretRow (d.caretCount text)) := by
  have hlength := length_margin hcolumn
  have hcount : (d.caretRow (d.caretCount text)).count caret = d.caretCount text := by
    rw [caretRow, List.count_append, List.count_eq_zero.2 (caret_not_mem_margin),
      List.count_replicate_self, Nat.zero_add]
  refine ⟨?_, fun column => ?_, ?_⟩
  · rw [hcount]
    exact caretCount_eq hcolumn text
  · rw [hcount]
    cases column with
    | zero =>
        refine ⟨nofun, fun h => ?_⟩
        omega
    | succ k =>
        show (d.caretRow (d.caretCount text))[k]? = some caret ↔ _
        rw [caretRow, List.getElem?_append]
        by_cases hk : k < d.margin.length
        · rw [if_pos hk]
          refine ⟨fun h => absurd (List.mem_of_getElem? h) (caret_not_mem_margin), fun h => ?_⟩
          omega
        · rw [if_neg hk, List.getElem?_replicate]
          split
          · exact ⟨fun _ => by omega, fun _ => rfl⟩
          · exact ⟨nofun, fun h => by omega⟩
  · rw [hcount, caretRow, List.length_append, List.length_replicate]
    omega

/-- What is written below the last of some carets begins at its column. -/
theorem hangsAt_below {carets : Nat} (hcarets : 1 ≤ carets) (text : Bytes) :
    HangsAt d.gutter (d.caretRow carets).length text
      (d.margin ++ List.replicate (carets - 1) space ++ text) := by
  have hlast : (d.caretRow carets).length - 1 =
      (d.margin ++ List.replicate (carets - 1) space).length := by
    rw [caretRow, List.length_append, List.length_append, List.length_replicate,
      List.length_replicate]
    omega
  refine ⟨?_, fun k hbar hk => ?_⟩
  · rw [hlast, List.drop_left]
  · obtain ⟨j, rfl⟩ : ∃ j, k = j + 1 := ⟨k - 1, by omega⟩
    show (d.margin ++ List.replicate (carets - 1) space ++ text)[j]? = some space
    rw [List.getElem?_append_left (by omega), List.getElem?_append]
    split
    next hmargin => exact margin_blank hcolumn hbar hmargin
    next hmargin =>
      rw [List.length_append, List.length_replicate] at hlast
      rw [List.getElem?_replicate, if_pos (by omega)]

end Columns

/-! ### No newlines inside rows -/

theorem newline_not_mem_margin : newline ∉ d.margin := by
  have hbar : newline ∉ ascii " | " := by decide
  have hspaces (n : Nat) : newline ∉ List.replicate n space := newline_not_mem_replicate (by decide) n
  exact List.not_mem_append (List.not_mem_append (hspaces _) hbar) (hspaces _)

section Newlines

variable (h : ∀ piece ∈ path :: d.code :: d.message :: d.suggestion.toList ++ source, newline ∉ piece)
include h

theorem newline_not_mem_headerRows : ∀ row ∈ d.headerRows path, newline ∉ row := by
  have hpath : newline ∉ path := h path (by simp)
  have hcode : newline ∉ d.code := h d.code (by simp)
  have hmessage : newline ∉ d.message := h d.message (by simp)
  have hrender : newline ∉ d.span.start.render := by
    have hline := newline_not_mem_decimal d.span.start.line.toNat
    have hcolumn := newline_not_mem_decimal d.span.start.column.toNat
    have hcolon : newline ∉ ascii ":" := by decide
    simp [Position.render, hline, hcolumn, hcolon]
  have hspaces : newline ∉ List.replicate d.gutter space := newline_not_mem_replicate (by decide) _
  have hopening : newline ∉ ascii "error[" := by decide
  have hclosing : newline ∉ ascii "]: " := by decide
  have harrow : newline ∉ ascii "--> " := by decide
  have hcolon : newline ∉ ascii ":" := by decide
  intro row hrow
  simp only [headerRows, List.mem_cons, List.not_mem_nil, or_false] at hrow
  rcases hrow with rfl | rfl
  · simp only [List.mem_append, not_or]
    exact ⟨⟨⟨hopening, hcode⟩, hclosing⟩, hmessage⟩
  · simp only [List.mem_append, not_or]
    exact ⟨⟨⟨⟨hspaces, harrow⟩, hpath⟩, hcolon⟩, hrender⟩

theorem newline_not_mem_lineRows (n : Nat) : ∀ row ∈ d.lineRows source n, newline ∉ row := by
  intro row hrow
  unfold lineRows at hrow
  split at hrow
  · cases hrow
  next text htext =>
    rw [List.mem_singleton.1 hrow]
    unfold sourceLine? at htext
    split at htext
    · cases htext
    · obtain ⟨line, hline, rfl⟩ := Option.map_eq_some_iff.1 htext
      have hsource : newline ∉ line := h line (by simp [List.mem_of_getElem? hline])
      have hbar : newline ∉ ascii " | " := by decide
      simp only [padRight, List.mem_append, not_or]
      exact ⟨⟨⟨newline_not_mem_decimal n, newline_not_mem_replicate (by decide) _⟩, hbar⟩,
        newline_not_mem_chomp hsource⟩

theorem newline_not_mem_suggestionRows (carets : Nat) :
    ∀ row ∈ d.suggestionRows carets, newline ∉ row := by
  have hbelow : newline ∉ d.margin ++ List.replicate (carets - 1) space :=
    List.not_mem_append newline_not_mem_margin (newline_not_mem_replicate (by decide) _)
  have hbar : newline ∉ ascii "|" := by decide
  intro row hrow
  unfold suggestionRows at hrow
  split at hrow
  · cases hrow
  next text htext =>
    have hwords : newline ∉ text := h text (by simp [htext])
    rcases List.mem_pair.1 hrow with rfl | rfl
    · exact List.not_mem_append hbelow hbar
    · exact List.not_mem_append hbelow hwords

end Newlines

/-! ### The report -/

/-- A finding at a column of a line of the source is reported in rows.  Behind the two header rows the
line above the finding is shown if and only if it is a line of the source that is not above the
reference, and then the line of the finding; every byte of them stands as many columns further right
as the gutter and the bar are wide.  Below the finding there are carets, and the bar and the
suggestion hang from the column of the last one.  Where no newline is inside the texts, these rows are
the lines of the report. -/
theorem detailed_isAligned {path : Bytes} {d : Diagnostic} {source : List Bytes}
    {reference : Position} (hcolumn : 1 ≤ d.span.start.column.toNat)
    (hfirst : 1 ≤ d.span.start.line.toNat) (hlast : d.span.start.line.toNat ≤ source.length) :
    ∃ (text : Bytes) (above : List Bytes) (shown underline : Bytes) (hanging : List Bytes),
      source[d.span.start.line.toNat - 1]? = some text ∧
      d.detailed path source reference =
        join [newline] (d.headerRows path ++ above ++ shown :: underline :: hanging ++ [[]]) ∧
      (if reference.line < d.span.start.line ∧ 2 ≤ d.span.start.line.toNat then
        ∃ row, above = [row] ∧ ShowsLine d.gutter source (d.span.start.line.toNat - 1) row
      else above = []) ∧
      ShowsLine d.gutter source d.span.start.line.toNat shown ∧
      Underlines d.gutter d (chomp text) underline ∧
      (match d.suggestion with
        | none => hanging = []
        | some words => ∃ bar below, hanging = [bar, below] ∧
          HangsAt d.gutter underline.length (ascii "|") bar ∧
          HangsAt d.gutter underline.length words below) ∧
      ((∀ piece ∈ path :: d.code :: d.message :: d.suggestion.toList ++ source, newline ∉ piece) →
        lines (d.detailed path source reference) =
          d.headerRows path ++ above ++ shown :: underline :: hanging ++ [[]]) := by
  have hget : source[d.span.start.line.toNat - 1]? = some source[d.span.start.line.toNat - 1] :=
    List.getElem?_eq_getElem (by omega)
  generalize hcarets : d.caretCount (chomp source[d.span.start.line.toNat - 1]) = carets
  have hpos : 1 ≤ carets := by
    have hcount := caretCount_eq hcolumn (chomp source[d.span.start.line.toNat - 1])
    rw [hcarets] at hcount
    omega
  obtain ⟨shown, hshown, hshows⟩ :=
    lineRows_of_mem (d := d) hfirst hlast (Nat.le_refl _)
  obtain ⟨above, habove, hcontext⟩ := exists_contextRows (d := d) reference hfirst hlast
  have hrows : (d.shownLines reference).flatMap (d.lineRows source) = above ++ [shown] := by
    rw [habove, hshown]
  have hjoin : d.detailed path source reference = join [newline] (d.headerRows path ++ above ++
      shown :: d.caretRow carets :: d.suggestionRows carets ++ [[]]) := by
    have hline : sourceLine? source d.span.start.line.toNat =
        some (chomp source[d.span.start.line.toNat - 1]) := by
      rw [sourceLine?, if_neg (by omega), hget]
      rfl
    have hcount : carets =
        d.caretCount ((sourceLine? source d.span.start.line.toNat).getD []) := by
      rw [hline, ← hcarets]
      rfl
    rw [detailed_eq_join hcount, hrows]
    simp
  refine ⟨_, above, shown, d.caretRow carets, d.suggestionRows carets, hget, hjoin, hcontext, hshows,
    hcarets ▸ underlines_caretRow hcolumn _, ?_, fun hplain => ?_⟩
  · unfold suggestionRows
    cases d.suggestion with
    | none => rfl
    | some words => exact ⟨_, _, rfl, hangsAt_below hcolumn hpos _, hangsAt_below hcolumn hpos _⟩
  · rw [hjoin]
    have hlines : ∀ row ∈ above ++ [shown], newline ∉ row := by
      rw [← hrows]
      intro row hrow
      obtain ⟨n, -, hrow⟩ := List.mem_flatMap.1 hrow
      exact newline_not_mem_lineRows hplain n row hrow
    have hunderline : newline ∉ d.caretRow carets :=
      List.not_mem_append newline_not_mem_margin (newline_not_mem_replicate (by decide) _)
    refine lines_join (by simp) fun row hrow => ?_
    simp only [List.mem_append, List.mem_cons, List.not_mem_nil, or_false] at hrow hlines
    rcases hrow with ((hrow | hrow) | rfl | rfl | hrow) | rfl
    · exact newline_not_mem_headerRows hplain row hrow
    · exact hlines row (.inl hrow)
    · exact hlines _ (.inr rfl)
    · exact hunderline
    · exact newline_not_mem_suggestionRows hplain carets row hrow
    · exact List.not_mem_nil

/-- Ten lines, of which the last one ends in a carriage return. -/
def sampleLines : List Bytes :=
  List.replicate 8 [] ++ [ascii "def f(x):", ascii "    return x\r"]

/-- A finding that begins on the last of these lines, and goes on below. -/
def sampleFinding : Diagnostic where
  code := ascii "RT02"
  span := ⟨⟨10, 12⟩, ⟨11, 1⟩⟩
  message := ascii "Unnamed."
  suggestion := some (ascii "Name it.")

theorem detailed_isAligned_sampleFinding :
    (1 ≤ sampleFinding.span.start.column.toNat ∧ 1 ≤ sampleFinding.span.start.line.toNat ∧
      sampleFinding.span.start.line.toNat ≤ sampleLines.length) ∧
    sampleFinding.detailed (ascii "m.py") sampleLines ⟨9, 1⟩ =
      ascii "error[RT02]: Unnamed.\n  --> m.py:10:12\n9  | def f(x):\n10 |     return x\n" ++
        ascii "   |            ^\n   |            |\n   |            Name it.\n" ∧
    ∃ shown underline : Bytes,
      shown ∈ lines (sampleFinding.detailed (ascii "m.py") sampleLines ⟨9, 1⟩) ∧
      underline ∈ lines (sampleFinding.detailed (ascii "m.py") sampleLines ⟨9, 1⟩) ∧
      ShowsLine 2 sampleLines 10 shown ∧ Underlines 2 sampleFinding (ascii "    return x") underline := by
  have hcolumn : 1 ≤ sampleFinding.span.start.column.toNat := by decide
  have hfirst : 1 ≤ sampleFinding.span.start.line.toNat := by decide
  have hlast : sampleFinding.span.start.line.toNat ≤ sampleLines.length := by decide
  have hplain : ∀ piece ∈ ascii "m.py" :: sampleFinding.code :: sampleFinding.message ::
      sampleFinding.suggestion.toList ++ sampleLines, newline ∉ piece := by decide
  obtain ⟨text, above, shown, underline, hanging, htext, -, -, hshown, hunderline, -, hlines⟩ :=
    @detailed_isAligned (ascii "m.py") sampleFinding sampleLines ⟨9, 1⟩ hcolumn hfirst hlast
  obtain rfl : text = ascii "    return x\r" := Option.some.inj (htext.symm.trans (by decide))
  have hrows := hlines hplain
  refine ⟨⟨hcolumn, hfirst, hlast⟩, by decide, shown, underline, ?_, ?_, hshown, hunderline⟩
  · rw [hrows]
    simp
  · rw [hrows]
    simp

end Diagnostic

end DocLint
