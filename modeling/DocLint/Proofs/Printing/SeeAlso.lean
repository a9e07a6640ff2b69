import DocLint.Proofs.Docstring.ReferencePieces
import DocLint.Proofs.Printing.References
import Mathlib.Data.List.Forall2

/-!
# See Also sections as they are printed

An entry is printed as a line of names behind the margin, with a description on it or not, and the
other lines of the description four columns deeper.  The entries that are read back are those that
were printed, wherever blank lines are put in, and no stray mark is found.

* `SeeAlsoText.lines`, `SeeAlsoText.Sound`: how an entry is printed, and what it must be like.
* `SeeAlsoRole.ofLine_header`, `SeeAlsoRole.ofLine_continuation`: what the lines are taken for.
* `entries_flaws_print`: printed entries are read back without flaws.
-/

namespace DocLint

open Bytes NameText

/-- A See Also entry before it is printed. -/
structure SeeAlsoText where
  first : NameText
  /-- The other names. -/
  more : List NameText
  /-- What stands behind the names on their line. -/
  description : Option Bytes
  /-- The other lines of the description. -/
  continuations : List Bytes

namespace SeeAlsoText

def names (e : SeeAlsoText) : List NameText := e.first :: e.more

/-- What follows the names on their line. -/
def tail (e : SeeAlsoText) : Bytes :=
  match e.description with
  | none => []
  | some text => ascii " : " ++ text

/-- What stands behind the margin. -/
def header (e : SeeAlsoText) : Bytes := e.first.print ++ (printMore e.more ++ e.tail)

/-- The texts of the lines of the entry. -/
def lines (indent : Nat) (e : SeeAlsoText) : List Bytes :=
  (spaces indent ++ e.header) :: e.continuations.map (spaces (indent + 4) ++ ·)

/-- The lines of the description, if there are any. -/
def described? (e : SeeAlsoText) : Option (List Bytes) :=
  match e.description.toList ++ e.continuations with
  | [] => none
  | text :: texts => some (text :: texts)

/-- The names can be read, the last one does not end with a period that would be taken for a stray
one, and no line of the description but the first has a colon. -/
structure Sound (e : SeeAlsoText) : Prop where
  names : ∀ name ∈ e.names, name.Sound
  no_period : ∀ name ∈ e.names.getLast?, name.isPlain = true → 1 < name.value.length →
    name.value.getLast? ≠ some (byte '.')
  description : ∀ text ∈ e.description, text ≠ [] ∧ strip text = text
  continuations : ∀ text ∈ e.continuations, text ≠ [] ∧ strip text = text ∧ byte ':' ∉ text

theorem head?_tail (e : SeeAlsoText) : ∀ c ∈ e.tail.head?, c = space := by
  intro c hc
  rw [tail] at hc
  split at hc
  · cases hc
  · cases hc
    rfl

end SeeAlsoText

/-! ### The line of names -/

namespace SeeAlsoLine

/-- A description is found behind a colon. -/
theorem tail?_description {text : Bytes} (hne : text ≠ []) (hstrip : strip text = text)
    (offset : Nat) : tail? offset (ascii " : " ++ text) = some (some (offset + 3)) := by
  have hleading : leading (spaces 1 ++ text) = 1 := by
    rw [leading_spaces_append, leading_eq_zero hstrip]
  have hlength : 1 < (spaces 1 ++ text).length := by
    have hpos := List.length_pos_iff.2 hne
    rw [List.length_append, length_spaces]
    omega
  have hstart : stripStart (ascii " : " ++ text) = byte ':' :: (spaces 1 ++ text) := rfl
  have hfront : leading (ascii " : " ++ text) = 1 := rfl
  rw [tail?, hstart]
  simp only [if_true, hleading, hfront, if_neg hlength.ne, Nat.one_pos]

/-- Where there is no colon there is no description. -/
theorem tail?_of_no_colon {s : Bytes} (h : byte ':' ∉ s) {offset : Nat} {description : Option Nat}
    (htail : tail? offset s = some description) : description = none := by
  unfold tail? at htail
  split at htail
  · exact (Option.some.inj htail).symm
  next c r hstart =>
    have hc : c ∈ stripStart s := by
      rw [hstart]
      exact List.mem_cons_self
    have hcolon : c ≠ byte ':' := by
      rintro rfl
      exact h ((List.dropWhile_suffix isSpace).subset hc)
    rw [if_neg hcolon] at htail
    cases htail

theorem description_of_no_colon {text : Bytes} (h : byte ':' ∉ text) {line : SeeAlsoLine}
    (hline : ofText? text = some line) : line.description = none := by
  unfold ofText? at hline
  obtain ⟨read, hread, hline⟩ := Option.bind_eq_some_iff.1 hline
  have hrest := (References.ofLine?_within hread).rest_eq
  have hnone : byte ':' ∉ read.rest := fun hmem => h (List.mem_of_mem_drop (hrest ▸ hmem))
  have hfinish {found : List (Nat × Reference)} {offset : Nat} {rest : Bytes}
      (hrest : byte ':' ∉ rest) (hline : ofText?.finish found offset rest = some line) :
      line.description = none := by
    unfold ofText?.finish at hline
    obtain ⟨description, hdescription, hline⟩ := Option.bind_eq_some_iff.1 hline
    have htail := tail?_of_no_colon hrest hdescription
    split at hline <;> cases hline <;> exact htail
  split at hline
  next => exact hfinish (by simp) hline
  next c r hcons =>
    rw [hcons] at hnone
    split at hline
    · obtain ⟨description, hdescription, hline⟩ := Option.bind_eq_some_iff.1 hline
      cases hline
      exact tail?_of_no_colon (fun hmem => hnone (List.mem_cons_of_mem c hmem)) hdescription
    · exact hfinish hnone hline

/-- The last name keeps its period where it has one. -/
theorem dropPeriod_eq_none {found : List (Nat × Reference)} {names : List NameText}
    (h : List.Forall₂ (fun found name => Reference.Reads found.2 name) found names)
    (hperiod : ∀ name ∈ names.getLast?, name.isPlain = true → 1 < name.value.length →
      name.value.getLast? ≠ some (byte '.')) :
    References.dropPeriod found = none := by
  rw [References.dropPeriod]
  split
  · rfl
  next first reference hlast =>
    rw [← List.head?_reverse] at hlast
    obtain ⟨rest, hrest⟩ := List.head?_eq_some_iff.1 hlast
    have hreverse := List.rel_reverse h
    rw [hrest, List.forall₂_cons_left_iff] at hreverse
    obtain ⟨name, names', hreads, -, hnames⟩ := hreverse
    have hname : names.getLast? = some name := by rw [← List.head?_reverse, hnames]; rfl
    refine if_neg fun ⟨hplain, hlength, hdot⟩ => ?_
    rw [hreads.plain] at hplain
    rw [hreads.value] at hlength hdot
    exact hperiod name hname hplain hlength hdot

/-- The line of names of an entry is read back, without a stray mark. -/
theorem ofText?_header {e : SeeAlsoText} (h : e.Sound) :
    ∃ line, ofText? e.header = some line ∧ line.stray = none ∧
      line.description =
        e.description.map (fun _ => (e.first.print ++ printMore e.more).length + 3) ∧
      List.Forall₂ (fun found name => Reference.Reads found.2 name) line.references e.names := by
  obtain ⟨read, hread, hoffset, hrest, hfound⟩ := References.ofLine?_print
    (h.names e.first List.mem_cons_self)
    (fun name hname => h.names name (List.mem_cons_of_mem _ hname)) e.head?_tail
  have hperiod := dropPeriod_eq_none hfound h.no_period
  rw [SeeAlsoText.header, ofText?, hread, ← hoffset]
  simp only [Option.bind_eq_bind, Option.bind_some]
  cases hdescription : e.description with
  | none =>
      have htail : read.rest = [] := by rw [hrest, SeeAlsoText.tail, hdescription]
      have hfinish : ofText?.finish read.found read.offset [] = some ⟨read.found, none, none⟩ := by
        rw [ofText?.finish, hperiod]
        rfl
      rw [htail]
      exact ⟨_, hfinish, rfl, rfl, hfound⟩
  | some text =>
      obtain ⟨hne, hstrip⟩ := h.description text hdescription
      have htail : read.rest = ascii " : " ++ text := by rw [hrest, SeeAlsoText.tail, hdescription]
      have hfinish : ofText?.finish read.found read.offset (ascii " : " ++ text) =
          some ⟨read.found, none, some (read.offset + 3)⟩ := by
        rw [ofText?.finish, hperiod, tail?_description hne hstrip]
        rfl
      rw [htail]
      exact ⟨_, hfinish, rfl, rfl, hfound⟩

end SeeAlsoLine

/-! ### The roles of the lines -/

namespace SeeAlsoRole

/-- The line of names begins an entry with these names and the description behind them. -/
theorem ofLine_header {e : SeeAlsoText} (h : e.Sound) {indent : Nat} {line : DocLine}
    (hline : line.text = spaces indent ++ e.header) :
    ∃ entry, ofLine indent line = .entry entry [] ∧
      entry.names.map (fun name => (name.name.value, name.role)) =
        e.names.map (fun name => (name.value, name.role?)) ∧
      entry.description.map (fun p => p.map DocLine.text) = e.description.map fun text => [text] := by
  have hfirst := h.names e.first List.mem_cons_self
  obtain ⟨c, r, hprint, hc⟩ := hfirst.exists_cons
  have hleading : line.leading = indent := by
    rw [DocLine.leading, hline, leading_spaces_append, SeeAlsoText.header, hfirst.leading_append,
      Nat.add_zero]
  have hblank : line.isBlank = false := by
    rw [DocLine.isBlank, hline, isBlank_spaces_append, SeeAlsoText.header, hprint]
    simp [isBlank, hc]
  have hdrop : line.text.drop (min indent line.leading) = e.header := by
    rw [hleading, Nat.min_self, hline]
    exact List.drop_left' (length_spaces indent)
  have hfront : e.header.head?.any isSpace = false := by
    rw [SeeAlsoText.header, hprint]
    exact hc
  obtain ⟨found, hfound, hstray, hdescription, hnames⟩ := SeeAlsoLine.ofText?_header h
  have hrole : ofLine indent line = ofReferences line indent found := by
    rw [ofLine, hdrop]
    simp only [hblank, hfront, hfound, Bool.and_false, Bool.false_eq_true, if_false]
  rw [hrole, ofReferences, hdrop, hstray]
  refine ⟨_, rfl, ?_, ?_⟩
  · rw [List.map_map, ← List.forall₂_eq_eq_eq, List.forall₂_map_left_iff,
      List.forall₂_map_right_iff]
    refine hnames.imp fun found name hreads => ?_
    rw [← hreads.value, ← hreads.role]
    rfl
  · dsimp only
    rw [hdescription]
    cases htext : e.description with
    | none => rfl
    | some text =>
        obtain ⟨hne, hstrip⟩ := h.description text htext
        have hsplit : e.header = (e.first.print ++ printMore e.more) ++ (ascii " : " ++ text) := by
          rw [SeeAlsoText.header, SeeAlsoText.tail, htext, List.append_assoc]
        have hbehind : e.header.drop ((e.first.print ++ printMore e.more).length + 3) = text := by
          rw [← List.drop_drop, hsplit, List.drop_left]
          rfl
        simp only [Option.map_some, List.map_cons, List.map_nil, hbehind, stripEnd_eq_self hstrip]

/-- A deeper line without a colon continues the description. -/
theorem ofLine_continuation {text : Bytes} (hne : text ≠ []) (hstrip : strip text = text)
    (hcolon : byte ':' ∉ text) {indent : Nat} {line : DocLine}
    (hline : line.text = spaces (indent + 4) ++ text) :
    ofLine indent line = .continuation ⟨line.column line.leading, text⟩ := by
  have hleading : line.leading = indent + 4 := by
    rw [DocLine.leading, hline, leading_spaces_append, leading_eq_zero hstrip, Nat.add_zero]
  have hblank : line.isBlank = false := by
    rw [DocLine.isBlank, ← Bool.not_eq_true, ← strip_eq_nil_iff, hline, strip_spaces_append, hstrip]
    exact hne
  have hdrop : line.text.drop (min indent line.leading) = spaces 4 ++ text := by
    have hsplit : spaces (indent + 4) ++ text = spaces indent ++ (spaces 4 ++ text) := by
      rw [← List.append_assoc, spaces, spaces, spaces, List.replicate_append_replicate]
    rw [hleading, Nat.min_eq_left (Nat.le_add_right indent 4), hline, hsplit]
    exact List.drop_left' (length_spaces indent)
  have hnone : (SeeAlsoLine.ofText? (spaces 4 ++ text)).any (fun l => l.description.isSome) = false := by
    have hcolon' : byte ':' ∉ spaces 4 ++ text := by
      rw [List.mem_append, not_or]
      exact ⟨by decide, hcolon⟩
    cases hfound : SeeAlsoLine.ofText? (spaces 4 ++ text) with
    | none => rfl
    | some found =>
        rw [Option.any_some, SeeAlsoLine.description_of_no_colon hcolon' hfound]
        rfl
  have hfront : (spaces 4 ++ text).head?.any isSpace = true := rfl
  rw [ofLine, hdrop]
  simp only [hblank, hnone, hfront, Bool.not_false, Bool.and_self, Bool.false_eq_true, if_false,
    if_true]
  rw [hline, strip_spaces_append, hstrip]

theorem ofLine_blank {indent : Nat} {line : DocLine} (h : line.isBlank = true) :
    ofLine indent line = .ignored := by
  rw [ofLine]
  exact if_pos h

end SeeAlsoRole

/-! ### Sections -/

namespace SeeAlsoEntry

open SeeAlsoRole

/-- An entry takes in the lines that continue it, up to the next entry. -/
theorem ofRoles_append (entry : SeeAlsoEntry) (flaws : List Flaw) (lines : List DocLine)
    {rest : List SeeAlsoRole} (hrest : ∀ role ∈ rest.head?, role.isEntry = true) :
    ofRoles (.entry entry flaws :: (lines.map .continuation ++ rest)) =
      entry.extend lines :: ofRoles rest := by
  have hlost : ofRoles (lines.map .continuation ++ rest) = ofRoles rest := by
    induction lines with
    | nil => rfl
    | cons line lines ih => exact ih
  have hcontinues : ∀ role ∈ lines.map continuation, (!role.isEntry) = true := by
    intro role hrole
    obtain ⟨line, -, rfl⟩ := List.mem_map.1 hrole
    rfl
  have hstop : ∀ role ∈ rest.head?, (!role.isEntry) = false := fun role hrole => by
    rw [hrest role hrole]
    rfl
  have htake := (span_append hcontinues hstop).1
  have hlines : (lines.map continuation).filterMap continuation? = lines := by
    rw [List.filterMap_map]
    exact List.filterMap_some
  rw [ofRoles, htake, hlines, hlost]

/-- Blank lines are passed over. -/
theorem entries_filter (indent : Nat) (body : List DocLine) :
    entries indent (body.filter fun line => !line.isBlank) = entries indent body := by
  -- A blank line is passed over in front of an entry, and among the lines that continue one.
  suffices h : entries indent (body.filter fun line => !line.isBlank) = entries indent body ∧
      (((body.filter fun line => !line.isBlank).map (ofLine indent)).takeWhile
          fun role => !role.isEntry).filterMap continuation? =
        ((body.map (ofLine indent)).takeWhile fun role => !role.isEntry).filterMap continuation? from
    h.1
  induction body with
  | nil => exact ⟨rfl, rfl⟩
  | cons line body ih =>
      obtain ⟨hentries, hcontinues⟩ := ih
      rw [entries, entries] at hentries ⊢
      by_cases hblank : line.isBlank = true
      · rw [List.filter_cons_of_neg (by simp [hblank]), List.map_cons, ofLine_blank hblank]
        exact ⟨hentries, hcontinues⟩
      · rw [List.filter_cons_of_pos (by simp [hblank]), List.map_cons, List.map_cons]
        cases ofLine indent line with
        | ignored => exact ⟨hentries, hcontinues⟩
        | continuation line => exact ⟨hentries, congrArg (line :: ·) hcontinues⟩
        | entry entry flaws =>
            refine ⟨?_, rfl⟩
            rw [ofRoles, ofRoles, hcontinues, hentries]

/-- The entry has the names, the roles and the lines of the description of the text. -/
structure Reads (entry : SeeAlsoEntry) (e : SeeAlsoText) : Prop where
  names : entry.names.map (fun name => (name.name.value, name.role)) =
    e.names.map fun name => (name.value, name.role?)
  description : entry.description.map (fun p => p.map DocLine.text) = e.described?

/-- The lines that continue an entry are put behind its description. -/
theorem Reads.extend {entry : SeeAlsoEntry} {e : SeeAlsoText}
    (hnames : entry.names.map (fun name => (name.name.value, name.role)) =
      e.names.map fun name => (name.value, name.role?))
    (hdescription : entry.description.map (fun p => p.map DocLine.text) =
      e.description.map fun text => [text])
    {lines : List DocLine} (hlines : lines.map DocLine.text = e.continuations) :
    (entry.extend lines).Reads e := by
  cases hlast : lines.getLast? with
  | none =>
      obtain rfl : lines = [] := List.getLast?_eq_none_iff.1 hlast
      refine ⟨hnames, hdescription.trans ?_⟩
      rw [SeeAlsoText.described?, ← hlines]
      cases e.description <;> rfl
  | some last =>
      rw [SeeAlsoEntry.extend, hlast]
      refine ⟨hnames, ?_⟩
      have htexts : (entry.description.getD []).map DocLine.text = e.description.toList := by
        cases htext : e.description with
        | none =>
            rw [htext, Option.map_none, Option.map_eq_none_iff] at hdescription
            rw [hdescription]
            rfl
        | some text =>
            rw [htext, Option.map_some, Option.map_eq_some_iff] at hdescription
            obtain ⟨p, hp, htexts⟩ := hdescription
            rw [hp]
            exact htexts
      have hne : e.continuations ≠ [] := by
        rw [← hlines]
        intro hnil
        rw [List.map_eq_nil_iff.1 hnil] at hlast
        cases hlast
      rw [Option.map_some, List.map_append, htexts, hlines, SeeAlsoText.described?]
      split
      next hnil => exact absurd (List.append_eq_nil_iff.1 hnil).2 hne
      next text texts hcons => rw [hcons]

variable {indent : Nat}

/-- The lines of an entry are an entry and what continues it. -/
theorem exists_roles {e : SeeAlsoText} (h : e.Sound) {lines : List DocLine}
    (hlines : lines.map DocLine.text = e.lines indent) :
    ∃ entry continuations, lines.map (ofLine indent) =
        .entry entry [] :: continuations.map continuation ∧ (entry.extend continuations).Reads e := by
  obtain ⟨line, below, rfl, hline, hbelow⟩ := List.map_eq_cons_iff.1 hlines
  obtain ⟨entry, hrole, hnames, hdescription⟩ := ofLine_header h hline
  have hcontinues : below.map (ofLine indent) =
      (below.map fun line => ⟨line.column line.leading, strip line.text⟩).map continuation := by
    rw [List.map_map]
    refine List.map_congr_left fun line hmem => ?_
    have htext : line.text ∈ e.continuations.map (spaces (indent + 4) ++ ·) :=
      hbelow ▸ List.mem_map_of_mem hmem
    obtain ⟨text, htext, hline⟩ := List.mem_map.1 htext
    obtain ⟨hne, hstrip, hcolon⟩ := h.continuations text htext
    rw [ofLine_continuation hne hstrip hcolon hline.symm, Function.comp_apply, ← hline,
      strip_spaces_append, hstrip]
  refine ⟨entry, _, by rw [List.map_cons, hrole, hcontinues], .extend hnames hdescription ?_⟩
  rw [List.map_map]
  calc below.map (fun line => strip line.text)
      = (below.map DocLine.text).map strip := by rw [List.map_map]; rfl
    _ = e.continuations.map fun text => strip (spaces (indent + 4) ++ text) := by
        rw [hbelow, List.map_map]
        rfl
    _ = e.continuations := by
        refine (List.map_congr_left fun text htext => ?_).trans (List.map_id _)
        rw [strip_spaces_append]
        exact (h.continuations text htext).2.1

/-- Printed entries without blank lines. -/
theorem ofRoles_print {texts : List SeeAlsoText} (h : ∀ e ∈ texts, e.Sound) {lines : List DocLine}
    (hlines : lines.map DocLine.text = texts.flatMap (SeeAlsoText.lines indent)) :
    List.Forall₂ Reads (ofRoles (lines.map (ofLine indent))) texts ∧
      (∀ role ∈ (lines.map (ofLine indent)).head?, role.isEntry = true) ∧
      ∀ role ∈ lines.map (ofLine indent), role.flaws = [] := by
  induction texts generalizing lines with
  | nil =>
      rw [List.flatMap_nil, List.map_eq_nil_iff] at hlines
      subst hlines
      exact ⟨.nil, by simp, by simp⟩
  | cons e texts ih =>
      rw [List.flatMap_cons, List.map_eq_append_iff] at hlines
      obtain ⟨front, back, rfl, hfront, hback⟩ := hlines
      obtain ⟨entry, continuations, hroles, hreads⟩ := exists_roles (h e List.mem_cons_self) hfront
      obtain ⟨hentries, hhead, hflaws⟩ := ih (fun d hd => h d (List.mem_cons_of_mem e hd)) hback
      rw [List.map_append, hroles, List.cons_append, ofRoles_append _ _ _ hhead]
      refine ⟨.cons hreads hentries, fun role hrole => by cases hrole; rfl, fun role hrole => ?_⟩
      rw [List.mem_cons, List.mem_append, List.mem_map] at hrole
      rcases hrole with rfl | ⟨line, -, rfl⟩ | hrole
      · rfl
      · rfl
      · exact hflaws role hrole

/-- Printed entries are read back, in their order and with nothing else between them, and no comma or
period behind the names is found to be stray. -/
theorem entries_flaws_print {texts : List SeeAlsoText} (h : ∀ e ∈ texts, e.Sound)
    {body : List DocLine}
    (hbody : (body.filter fun line => !line.isBlank).map DocLine.text =
      texts.flatMap (SeeAlsoText.lines indent)) :
    List.Forall₂ Reads (entries indent body) texts ∧ flaws indent body = [] := by
  obtain ⟨hentries, -, hflaws⟩ := ofRoles_print h hbody
  refine ⟨entries_filter indent body ▸ hentries, ?_⟩
  rw [flaws, List.flatMap_eq_nil_iff]
  intro line hline
  by_cases hblank : line.isBlank = true
  · rw [ofLine_blank hblank]
    rfl
  · exact hflaws _ (List.mem_map_of_mem (List.mem_filter.2 ⟨hline, by simp [hblank]⟩))

/-- Two entries, with roles, a shortened module, and periods that belong to the names. -/
def sampleTexts : List SeeAlsoText :=
  [{ first := .plain (ascii "np.")
     more := [.quoted (some (ascii "py:func")) (some (ascii "np")) (ascii "linalg.-")]
     description := some (ascii "Both: of them")
     continuations := [ascii "and more,", ascii "np."] },
   { first := .quoted none none (ascii "x."), more := [.plain (ascii ".")]
     description := none, continuations := [ascii "y"] }]

/-- Their lines, with blank ones between them. -/
def sampleBody : List DocLine :=
  [⟨⟨2, 1⟩, ascii " \t"⟩,
   ⟨⟨3, 1⟩, ascii "  np., :py:func:`~np.linalg.-` : Both: of them"⟩,
   ⟨⟨4, 1⟩, []⟩, ⟨⟨5, 1⟩, ascii "      and more,"⟩, ⟨⟨6, 1⟩, ascii "      np."⟩,
   ⟨⟨7, 1⟩, ascii "  `x.`, ."⟩, ⟨⟨8, 1⟩, ascii "      y"⟩]

theorem sampleTexts_sound : ∀ e ∈ sampleTexts, e.Sound := by
  intro e he
  rw [sampleTexts, List.mem_cons, List.mem_singleton] at he
  rcases he with rfl | rfl
  · refine ⟨fun name hname => ?_, by decide, by decide, by decide⟩
    rw [SeeAlsoText.names, List.mem_cons, List.mem_singleton] at hname
    rcases hname with rfl | rfl
    · show IsRun isReferenceByte (ascii "np.")
      decide
    · refine ⟨fun r hr => ?_, by decide, by decide⟩
      cases hr
      exact .inl ⟨ascii "func", rfl, by decide⟩
  · refine ⟨fun name hname => ?_, by decide, by decide, by decide⟩
    rw [SeeAlsoText.names, List.mem_cons, List.mem_singleton] at hname
    rcases hname with rfl | rfl
    · exact ⟨fun r hr => absurd hr (Option.not_mem_none r), by decide, by decide⟩
    · show IsRun isReferenceByte (ascii ".")
      decide

theorem entries_flaws_print_sampleTexts :
    (∀ e ∈ sampleTexts, e.Sound) ∧
      (sampleBody.filter fun line => !line.isBlank).map DocLine.text =
        sampleTexts.flatMap (SeeAlsoText.lines 2) ∧
      List.Forall₂ Reads (entries 2 sampleBody) sampleTexts ∧ flaws 2 sampleBody = [] := by
  have hbody : (sampleBody.filter fun line => !line.isBlank).map DocLine.text =
      sampleTexts.flatMap (SeeAlsoText.lines 2) := by decide
  exact ⟨sampleTexts_sound, hbody, entries_flaws_print sampleTexts_sound hbody⟩

end SeeAlsoEntry

end DocLint
