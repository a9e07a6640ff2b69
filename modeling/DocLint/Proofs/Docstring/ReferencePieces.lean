import DocLint.Docstring.SeeAlso
import DocLint.Proofs.Docstring.Pieces

/-!
# Pieces of reference lines

The references of a See Also section are found by offsets into the dedented line, which add up over
commas, roles and backticks.  Every name, description and stray mark is a part of the line, and
stands where the offsets say.

* `Reference.Fits`: a reference begins with what stands in front of its name.
* `SeeAlsoLine.ofText?_within`: a line is taken apart into parts of it.
* `SeeAlsoEntry.entries_isIn`, `SeeAlsoEntry.flaws_isIn`: the pieces of the entries, and the stray
  marks, are held by the lines of the body.
-/

namespace DocLint

open Bytes

/-! ### References -/

/-- The name of a reference is part of the text that the reference begins; a bare one comes first. -/
structure Reference.Fits (reference : Reference) (s : Bytes) : Prop where
  value : reference.value.OccursAt reference.lead s
  length : reference.length ≤ s.length
  plain : reference.plain = true → reference.lead = 0

theorem lt_length_of_head?_drop {s : Bytes} {k : Nat} {c : UInt8}
    (h : (s.drop k).head? = some c) : k < s.length := by
  refine Nat.lt_of_not_le fun hle => ?_
  rw [List.drop_of_length_le hle] at h
  cases h

namespace Reference

/-- A quoted name ends before its closing backtick. -/
theorem quoted?_fits {s : Bytes} {reference : Reference} (h : quoted? s = some reference) :
    reference.Fits s ∧ reference.plain = false := by
  unfold quoted? at h
  split at h
  · cases h
  next c r =>
    dsimp only at h
    split at h
    next hquoted =>
      have hlt := lt_length_of_head?_drop hquoted.2.2
      cases h
      refine ⟨⟨⟨by simp, List.take_prefix _ _⟩, ?_, fun hplain => by cases hplain⟩, rfl⟩
      simp only [List.length_cons]
      omega
    · cases h

theorem ofText?_fits {s : Bytes} {reference : Reference} (h : ofText? s = some reference) :
    reference.Fits s := by
  unfold ofText? at h
  split at h
  · cases h
  next c r =>
    split at h
    · dsimp only at h
      split at h
      next hrole =>
        obtain ⟨inner, hinner, rfl⟩ := Option.map_eq_some_iff.1 h
        obtain ⟨hfits, hplain⟩ := quoted?_fits hinner
        rw [Bool.and_eq_true, beq_iff_eq] at hrole
        have hlt := lt_length_of_head?_drop hrole.2
        -- The quoted name begins behind the role and its two colons.
        have hbehind : OccursAt (r.drop ((rolePart r).length + 1)) ((rolePart r).length + 2)
            (c :: r) :=
          occursAt_drop (s := c :: r) (Nat.succ_le_succ hlt)
        have hlength := hfits.length
        rw [List.length_drop] at hlength
        refine ⟨hfits.value.trans hbehind, ?_, fun h => ?_⟩
        · simp only [List.length_cons]
          omega
        · rw [hplain] at h
          cases h
      · cases h
    · split at h
      · exact (quoted?_fits h).1
      · dsimp only at h
        split at h
        · cases h
        · cases h
          exact ⟨⟨Nat.zero_le _, List.takeWhile_prefix _⟩, (List.takeWhile_prefix _).length_le,
            fun _ => rfl⟩

end Reference

/-- A reference at some offset of a text has its name there. -/
def Reference.IsPartOf (text : Bytes) (found : Nat × Reference) : Prop :=
  found.2.value.OccursAt (found.1 + found.2.lead) text ∧ (found.2.plain = true → found.2.lead = 0)

/-- What fits the rest of a text is part of the text, and ends in it. -/
theorem Reference.Fits.isPartOf {reference : Reference} {text s : Bytes} {offset : Nat}
    (h : reference.Fits s) (hoffset : offset ≤ text.length) (hs : s = text.drop offset) :
    IsPartOf text (offset, reference) ∧ offset + reference.length ≤ text.length ∧
      s.drop reference.length = text.drop (offset + reference.length) := by
  have hlength := h.length
  rw [hs, List.length_drop] at hlength
  refine ⟨⟨?_, h.plain⟩, by omega, ?_⟩
  · rw [hs] at h
    exact h.value.trans (occursAt_drop hoffset)
  · rw [hs, List.drop_drop]

namespace References

/-- The references and what stands behind them are parts of the text. -/
structure Within (text : Bytes) (line : References) : Prop where
  found : ∀ found ∈ line.found, Reference.IsPartOf text found
  offset_le : line.offset ≤ text.length
  rest_eq : line.rest = text.drop line.offset

variable {text : Bytes}

/-- The whitespace in front of a reference is passed over. -/
theorem stripStart_eq_drop {s : Bytes} {offset : Nat} (hoffset : offset ≤ text.length)
    (hs : s = text.drop offset) :
    offset + leading s ≤ text.length ∧ stripStart s = text.drop (offset + leading s) := by
  have hle := leading_le s
  have hlength : s.length = text.length - offset := by rw [hs, List.length_drop]
  refine ⟨by omega, ?_⟩
  rw [← drop_leading, ← List.drop_drop, ← hs]

theorem more_within {offset : Nat} {s : Bytes} (hoffset : offset ≤ text.length)
    (hs : s = text.drop offset) : (more offset s).Within text := by
  -- The text ahead is always what is left of the whole text from the offset on.
  fun_induction more offset s with
  | case1 offset => exact ⟨by simp, hoffset, hs⟩
  | case2 offset c r _ _ => exact ⟨by simp, hoffset, hs⟩
  | case3 offset c r _ reference hreference first behind ih =>
      have hlength : (c :: r).length = text.length - offset := by rw [hs, List.length_drop]
      rw [List.length_cons] at hlength
      have hr : r = text.drop (offset + 1) := by rw [← List.drop_drop, ← hs, List.drop_one, List.tail_cons]
      obtain ⟨hfirst, hstart⟩ := stripStart_eq_drop (by omega) hr
      obtain ⟨hpart, hend, hrest⟩ := (Reference.ofText?_fits hreference).isPartOf hfirst hstart
      obtain ⟨hfound, hoffset', hrest'⟩ := ih hend hrest
      refine ⟨fun found hmem => ?_, hoffset', hrest'⟩
      rcases List.mem_cons.1 hmem with rfl | hmem
      · exact hpart
      · exact hfound found hmem
  | case4 offset c r _ => exact ⟨by simp, hoffset, hs⟩

theorem ofLine?_within {line : References} (h : ofLine? text = some line) : line.Within text := by
  obtain ⟨reference, hreference, rfl⟩ := Option.map_eq_some_iff.1 h
  have hwhole : text = text.drop 0 := rfl
  obtain ⟨hfirst, hstart⟩ := stripStart_eq_drop (Nat.zero_le _) hwhole
  rw [Nat.zero_add] at hfirst hstart
  obtain ⟨hpart, hend, hrest⟩ := (Reference.ofText?_fits hreference).isPartOf hfirst hstart
  obtain ⟨hfound, hoffset, hrest'⟩ := more_within hend hrest
  refine ⟨fun found hmem => ?_, hoffset, hrest'⟩
  rcases List.mem_cons.1 hmem with rfl | hmem
  · exact hpart
  · exact hfound found hmem

/-- The period left out of the last name is a byte of the text. -/
theorem dropPeriod_within {found shortened : List (Nat × Reference)} {stray : Nat}
    (hfound : ∀ f ∈ found, Reference.IsPartOf text f)
    (h : dropPeriod found = some (shortened, stray)) :
    (∀ f ∈ shortened, Reference.IsPartOf text f) ∧ OccursAt [byte '.'] stray text := by
  unfold dropPeriod at h
  split at h
  · cases h
  next first reference hlast =>
    split at h
    next hperiod =>
      obtain ⟨hplain, hlength, hend⟩ := hperiod
      cases h
      obtain ⟨hvalue, hlead⟩ := hfound _ (List.mem_of_getLast? hlast)
      -- Only a bare name loses its period, so that nothing stands in front of the name.
      have hzero : reference.lead = 0 := hlead hplain
      rw [show (first, reference).2.lead = 0 from hzero, Nat.add_zero] at hvalue
      obtain ⟨name, hname⟩ := List.getLast?_eq_some_iff.1 hend
      refine ⟨fun f hf => ?_, ?_⟩
      · rcases List.mem_append.1 hf with hf | hf
        · exact hfound f (List.dropLast_subset _ hf)
        · rw [List.mem_singleton.1 hf]
          refine ⟨?_, hlead⟩
          show OccursAt reference.value.dropLast (first + reference.lead) text
          rw [hzero, Nat.add_zero]
          exact hvalue.of_isPrefix (List.dropLast_prefix _)
      · have hdot : OccursAt [byte '.'] name.length reference.value := by
          rw [hname]
          exact ⟨by simp, by simp⟩
        have hstray : first + reference.value.length - 1 = first + name.length := by
          rw [hname]
          simp
        rw [hstray]
        exact hdot.trans hvalue
    · cases h

end References

namespace SeeAlsoLine

/-- The references of the line, its stray mark and its description are parts of the text. -/
structure Within (text : Bytes) (line : SeeAlsoLine) : Prop where
  references : ∀ found ∈ line.references, Reference.IsPartOf text found
  stray : ∀ offset ∈ line.stray, OccursAt [byte ','] offset text ∨ OccursAt [byte '.'] offset text
  description : ∀ offset ∈ line.description, offset ≤ text.length

variable {text : Bytes}

theorem tail?_le {offset : Nat} {s : Bytes} (hoffset : offset + s.length ≤ text.length)
    {description : Option Nat} (h : tail? offset s = some description) :
    ∀ d ∈ description, d ≤ text.length := by
  intro d hd
  unfold tail? at h
  split at h
  · cases h
    cases hd
  next c r hrest =>
    have hlength := congrArg List.length (takeWhile_append_stripStart s)
    rw [List.length_append, hrest, List.length_cons] at hlength
    have hleading := leading_le r
    split at h
    · split at h
      · cases h
        cases hd
      · split at h
        · cases h
          cases hd
          have hwhite : leading s = (s.takeWhile isSpace).length := rfl
          omega
        · cases h
    · cases h

theorem finish_within {found : List (Nat × Reference)} {offset : Nat} {rest : Bytes}
    {line : SeeAlsoLine} (hfound : ∀ f ∈ found, Reference.IsPartOf text f)
    (hoffset : offset + rest.length ≤ text.length)
    (h : ofText?.finish found offset rest = some line) : line.Within text := by
  unfold ofText?.finish at h
  obtain ⟨description, hdescription, h⟩ := Option.bind_eq_some_iff.1 h
  have hle := tail?_le hoffset hdescription
  split at h
  next shortened stray hperiod =>
    obtain ⟨hshortened, hstray⟩ := References.dropPeriod_within hfound hperiod
    cases h
    refine ⟨hshortened, fun o ho => ?_, hle⟩
    cases ho
    exact .inr hstray
  · cases h
    exact ⟨hfound, fun o ho => (by cases ho), hle⟩

/-- A line of references is taken apart into parts of it. -/
theorem ofText?_within {line : SeeAlsoLine} (h : ofText? text = some line) : line.Within text := by
  unfold ofText? at h
  obtain ⟨read, hread, h⟩ := Option.bind_eq_some_iff.1 h
  obtain ⟨hfound, hoffset, hrest⟩ := References.ofLine?_within hread
  have hlength : read.rest.length = text.length - read.offset := by rw [hrest, List.length_drop]
  split at h
  next hnil => exact finish_within hfound (by simpa using hoffset) h
  next c r hcons =>
    rw [hcons, List.length_cons] at hlength
    split at h
    next hmark =>
      obtain ⟨description, hdescription, h⟩ := Option.bind_eq_some_iff.1 h
      have hroom : read.offset + 1 + r.length ≤ text.length := by omega
      have hle := tail?_le hroom hdescription
      cases h
      refine ⟨hfound, fun o ho => ?_, hle⟩
      cases ho
      have hoccurs : OccursAt [c] read.offset text := by
        refine ⟨hoffset, ?_⟩
        rw [← hrest, hcons]
        exact ⟨r, rfl⟩
      rcases hmark with rfl | rfl
      · exact .inl hoccurs
      · exact .inr hoccurs
    · refine finish_within hfound ?_ h
      rw [List.length_cons]
      omega

end SeeAlsoLine

/-! ### See Also entries -/

namespace SeeAlsoEntry

/-- The lines of the description of an entry. -/
def pieces (entry : SeeAlsoEntry) : List DocLine := entry.description.getD []

/-- The names of an entry. -/
def fragments (entry : SeeAlsoEntry) : List Fragment := entry.names.map SeeAlsoName.name

/-- The pieces of the entry are held by the lines. -/
def IsIn (lines : List DocLine) (entry : SeeAlsoEntry) : Prop :=
  (∀ l ∈ entry.pieces, l.IsIn lines) ∧ ∀ f ∈ entry.fragments, f.IsIn lines

end SeeAlsoEntry

/-- A stray mark is a comma or a period, and stands at its position. -/
def Flaw.IsStrayIn (lines : List DocLine) : Flaw → Prop
  | strayMark position mark =>
    (mark = byte ',' ∨ mark = byte '.') ∧ HoldsAt lines position [mark]
  | _ => False

namespace SeeAlsoRole

/-- What a line of a See Also section adds is held by the lines. -/
def IsIn (lines : List DocLine) : SeeAlsoRole → Prop
  | ignored => True
  | continuation line => line.IsIn lines
  | entry e flaws => e.IsIn lines ∧ ∀ flaw ∈ flaws, flaw.IsStrayIn lines

variable {lines : List DocLine}

theorem ofReferences_isIn {line : DocLine} (hline : line ∈ lines) (indent : Nat)
    {found : SeeAlsoLine} (h : found.Within (line.text.drop (min indent line.leading))) :
    (ofReferences line indent found).IsIn lines := by
  have hin := DocLine.isIn_of_mem hline
  -- Offsets count from the indentation of the docstring on, positions from the line.
  have htext := occursAt_drop
    (Nat.le_trans (Nat.min_le_right indent line.leading) (leading_le line.text))
  have hplace {offset : Nat} {value : Bytes}
      (hvalue : value.OccursAt offset (line.text.drop (min indent line.leading))) :
      value.OccursAt (min indent line.leading + offset) line.text :=
    hvalue.trans htext
  unfold ofReferences
  dsimp only [IsIn]
  refine ⟨⟨fun l hl => ?_, fun f hf => ?_⟩, fun flaw hflaw => ?_⟩
  · -- The description is what stands behind the colon, without whitespace at its end.
    cases hdescription : found.description with
    | none => simp [SeeAlsoEntry.pieces, hdescription] at hl
    | some offset =>
        simp only [SeeAlsoEntry.pieces, hdescription, Option.map_some, Option.getD_some,
          List.mem_singleton] at hl
        rw [hl]
        exact hin.occurs
          ((hplace (occursAt_drop (h.description offset hdescription))).of_isPrefix
            (stripEnd_isPrefix _))
  · simp only [SeeAlsoEntry.fragments, List.map_map, List.mem_map] at hf
    obtain ⟨⟨offset, reference⟩, hreference, rfl⟩ := hf
    have hvalue := hplace (h.references _ hreference).1
    rw [← Nat.add_assoc] at hvalue
    exact hin.fragment hvalue
  · cases hstray : found.stray with
    | none => simp [hstray] at hflaw
    | some offset =>
        cases hdescription : found.description with
        | some d => simp [hstray, hdescription] at hflaw
        | none =>
            simp only [hstray, hdescription, List.mem_singleton] at hflaw
            rw [hflaw]
            have hmark {mark : UInt8}
                (hoccurs : OccursAt [mark] offset (line.text.drop (min indent line.leading))) :
                ((line.text.drop (min indent line.leading)).drop offset).headD 0 = mark := by
              obtain ⟨behind, hbehind⟩ := hoccurs.2
              rw [← hbehind]
              rfl
            rcases h.stray offset hstray with hcomma | hperiod
            · rw [hmark hcomma]
              exact ⟨.inl rfl, hin.occurs (hplace hcomma)⟩
            · rw [hmark hperiod]
              exact ⟨.inr rfl, hin.occurs (hplace hperiod)⟩

theorem ofLine_isIn {line : DocLine} (hline : line ∈ lines) (indent : Nat) :
    (ofLine indent line).IsIn lines := by
  unfold ofLine
  dsimp only
  split
  · trivial
  · split
    · exact (DocLine.isIn_of_mem hline).occurs (strip_occursAt line.text)
    · split
      · trivial
      next found hfound => exact ofReferences_isIn hline indent (SeeAlsoLine.ofText?_within hfound)

end SeeAlsoRole

namespace SeeAlsoEntry

variable {lines : List DocLine}

theorem extend_isIn {entry : SeeAlsoEntry} (h : entry.IsIn lines) {more : List DocLine}
    (hmore : ∀ l ∈ more, l.IsIn lines) : (entry.extend more).IsIn lines := by
  unfold extend
  split
  · exact h
  · refine ⟨fun l hl => ?_, h.2⟩
    rcases List.mem_append.1 hl with hl | hl
    · exact h.1 l hl
    · exact hmore l hl

/-- Entries are put together from what their lines add. -/
theorem ofRoles_isIn {roles : List SeeAlsoRole} (h : ∀ role ∈ roles, role.IsIn lines) :
    ∀ entry ∈ ofRoles roles, entry.IsIn lines := by
  induction roles with
  | nil => simp [ofRoles]
  | cons role rest ih =>
      have hrest := ih fun r hr => h r (List.mem_cons_of_mem role hr)
      cases role with
      | ignored => exact hrest
      | continuation line => exact hrest
      | entry e flaws =>
          intro entry hentry
          rcases List.mem_cons.1 hentry with rfl | hentry
          · refine extend_isIn (h _ List.mem_cons_self).1 fun l hl => ?_
            obtain ⟨r, hr, hl⟩ := List.mem_filterMap.1 hl
            have hin := h r (List.mem_cons_of_mem _ ((List.takeWhile_prefix _).subset hr))
            cases r with
            | ignored => cases hl
            | continuation line => cases hl; exact hin
            | entry e flaws => cases hl
          · exact hrest entry hentry

/-- The pieces of the entries of a section body are held by its lines. -/
theorem entries_isIn (indent : Nat) {body : List DocLine} (hbody : ∀ line ∈ body, line ∈ lines) :
    ∀ entry ∈ entries indent body, entry.IsIn lines := by
  refine ofRoles_isIn fun role hrole => ?_
  obtain ⟨line, hline, rfl⟩ := List.mem_map.1 hrole
  exact SeeAlsoRole.ofLine_isIn (hbody line hline) indent

/-- The flaws of a section body are stray marks on its lines. -/
theorem flaws_isIn (indent : Nat) {body : List DocLine} (hbody : ∀ line ∈ body, line ∈ lines) :
    ∀ flaw ∈ flaws indent body, flaw.IsStrayIn lines := by
  intro flaw hflaw
  obtain ⟨line, hline, hflaw⟩ := List.mem_flatMap.1 hflaw
  have hin := SeeAlsoRole.ofLine_isIn (hbody line hline) indent
  cases hrole : SeeAlsoRole.ofLine indent line with
  | ignored => simp [hrole, SeeAlsoRole.flaws] at hflaw
  | continuation l => simp [hrole, SeeAlsoRole.flaws] at hflaw
  | entry e flaws =>
      rw [hrole] at hin hflaw
      exact hin.2 flaw hflaw

end SeeAlsoEntry

end DocLint
