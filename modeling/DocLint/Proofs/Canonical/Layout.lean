import DocLint.Proofs.Canonical.Sections
import DocLint.Proofs.Canonical.Text
import DocLint.Proofs.Check.Margin
import DocLint.Proofs.Text.Place
import Mathlib.Data.List.Chain

/-!
# The layout of a canonical docstring

No line of a canonical docstring is indented with tabs or holds a directive without colons, and the
lines inside its sections cannot be taken for the beginning of another section.  Blank lines separate
the blocks: there is one above them and one below, and no two follow each other.

* `mem_blocks`, `mem_sections`: what the lines of a sound docstring are like.
* `stack_eq_concat`, `isChain_stack`: where the blank lines of a stack are.
-/

namespace DocLint

open Bytes

/-! ### Lines -/

/-- A line with neither tabs in front nor a directive without colons. -/
structure IsTidy (l : Bytes) : Prop where
  one_line : newline ∉ l
  no_tab : tab ∉ l.takeWhile isSpace
  no_bareDirective : Check.bareDirective? l = none

/-- A line that can stand inside a section. -/
structure IsBodyLine (l : Bytes) : Prop extends IsTidy l where
  not_blank : isBlank l = false
  index_free : startsWith (strip l) indexDirective = false
  no_underline : isUnderline (strip l) = false

theorem not_mem_spaces {c : UInt8} (h : c ≠ space) (m : Nat) : c ∉ spaces m := fun hmem =>
  h (List.eq_of_mem_replicate hmem)

namespace IsTidy

/-- A margin leaves a line tidy. -/
theorem spaces_append {s : Bytes} (h : IsTidy s) (m : Nat) : IsTidy (spaces m ++ s) where
  one_line := by
    rw [List.mem_append, not_or]
    exact ⟨not_mem_spaces (by decide) m, h.one_line⟩
  no_tab := by
    rw [takeWhile_isSpace_spaces_append, List.mem_append, not_or]
    exact ⟨not_mem_spaces (by decide) m, h.no_tab⟩
  no_bareDirective := by
    rw [Check.bareDirective?_spaces_append, h.no_bareDirective]
    rfl

theorem nil : IsTidy [] := ⟨by simp, by simp, by decide⟩

theorem spaces (m : Nat) : IsTidy (spaces m) := by
  have h := nil.spaces_append m
  rwa [List.append_nil] at h

/-- A line that begins neither with whitespace nor with a period. -/
theorem of_cons {c : UInt8} {r : Bytes} (hline : newline ∉ c :: r) (hspace : isSpace c = false)
    (hdot : c ≠ byte '.') : IsTidy (c :: r) where
  one_line := hline
  no_tab := by simp [hspace]
  no_bareDirective := by
    have hno : startsWith (c :: r) (ascii ".. ") = false := startsWith_cons_of_ne hdot r _
    have hstart : stripStart (c :: r) = c :: r := List.dropWhile_cons_of_neg (by simp [hspace])
    unfold Check.bareDirective?
    simp only [hstart, hno, Bool.false_eq_true, if_false]

end IsTidy

namespace IsBodyLine

/-- A line behind a margin can stand where it can stand without the margin. -/
theorem spaces_append {s : Bytes} (h : IsBodyLine s) (m : Nat) : IsBodyLine (spaces m ++ s) where
  toIsTidy := h.toIsTidy.spaces_append m
  not_blank := by rw [isBlank_spaces_append, h.not_blank]
  index_free := by rw [strip_spaces_append, h.index_free]
  no_underline := by rw [strip_spaces_append, h.no_underline]

/-- A line that begins neither with whitespace nor with the byte of a directive or an underline. -/
theorem of_cons {c : UInt8} {r : Bytes} (hline : newline ∉ c :: r) (hspace : isSpace c = false)
    (hmark : c ≠ byte '.' ∧ c ≠ byte '-' ∧ c ≠ byte '=') : IsBodyLine (c :: r) := by
  have hblank : isBlank (c :: r) = false := by simp [isBlank, hspace]
  have hleading : leading (c :: r) = 0 := by simp [leading, hspace]
  have hoccurs := (strip_occursAt (c :: r)).2
  rw [hleading, List.drop_zero] at hoccurs
  have hne : strip (c :: r) ≠ [] := by
    rw [Ne, strip_eq_nil_iff, hblank]
    exact Bool.false_ne_true
  obtain ⟨c', r', hstrip⟩ := List.exists_cons_of_ne_nil hne
  rw [hstrip, List.cons_prefix_cons] at hoccurs
  obtain ⟨rfl, -⟩ := hoccurs
  refine ⟨IsTidy.of_cons hline hspace hmark.1, hblank, ?_, ?_⟩
  · obtain ⟨t, ht⟩ := indexDirective_eq_cons
    rw [hstrip, ht, startsWith_cons_of_ne hmark.1]
  · rw [hstrip, isUnderline]
    simp [hmark.2.1, hmark.2.2]

end IsBodyLine

/-- The bytes of a name are no whitespace, and none of them has a meaning beside the name. -/
theorem isNameByte_plain {c : UInt8} (h : isNameByte c = true) :
    isSpace c = false ∧
      c ∉ [byte '.', byte '-', byte '=', byte ':', byte ',', byte '*', newline] := by
  refine ⟨?_, not_mem_of_class rfl h⟩
  have hunderscore : byte '_' = 95 := rfl
  simp only [isNameByte, isNameStart, isAlpha, isUpper, isLower, isDigit, isSpace, hunderscore]
    at h ⊢
  grind

theorem isNameByte_of_isWord {c : UInt8} (h : isWord c = true) : isNameByte c = true := by
  simp only [isWord, Bool.or_eq_true, beq_iff_eq] at h
  rcases h with (h | h) | rfl
  · simp [isNameByte, isNameStart, h]
  · simp [isNameByte, h]
  · rfl

/-- A line that begins with a byte of a name. -/
theorem IsBodyLine.of_name {c : UInt8} {r : Bytes} (hline : newline ∉ c :: r)
    (hc : isNameByte c = true) : IsBodyLine (c :: r) := by
  obtain ⟨hspace, hplain⟩ := isNameByte_plain hc
  -- None of the three bytes is one of a name.
  refine IsBodyLine.of_cons hline hspace ⟨?_, ?_, ?_⟩
  · rintro rfl
    exact hplain (by simp)
  · rintro rfl
    exact hplain (by simp)
  · rintro rfl
    exact hplain (by simp)

theorem IsProse.not_blank {s : Bytes} (h : IsProse s) : isBlank s = false := by
  rw [← Bool.not_eq_true, ← strip_eq_nil_iff, h.strip_eq]
  exact h.ne_nil

theorem IsProse.isTidy {s : Bytes} (h : IsProse s) : IsTidy s where
  one_line := h.one_line
  no_tab := by
    have hnone := leading_eq_zero h.strip_eq
    rw [leading, List.length_eq_zero_iff] at hnone
    rw [hnone]
    exact List.not_mem_nil
  no_bareDirective := h.no_bareDirective

/-- A sentence is no underline, for it ends with a period. -/
theorem IsSentence.isBodyLine {s : Bytes} (h : IsSentence s) : IsBodyLine s where
  toIsTidy := h.isTidy
  not_blank := h.not_blank
  index_free := by rw [h.strip_eq, h.index_free]
  no_underline := by
    rw [h.strip_eq, ← Bool.not_eq_true]
    intro hunderline
    -- All bytes of an underline are equal, and the last one is a period.
    have hlast := List.mem_of_getLast? h.period
    cases s with
    | nil => cases hunderline
    | cons c r =>
        simp only [isUnderline, Bool.and_eq_true, Bool.or_eq_true, beq_iff_eq, List.all_eq_true]
          at hunderline
        have hdot : byte '.' = c := by
          rcases List.mem_cons.1 hlast with hc | hr
          · exact hc
          · exact hunderline.2 _ hr
        rcases hunderline.1 with hc | hc
        · exact absurd (hdot.trans hc) (by decide)
        · exact absurd (hdot.trans hc) (by decide)

theorem IsWordRun.isName {s : Bytes} (h : IsWordRun s) : IsName s :=
  ⟨h.1, fun c hc => isNameByte_of_isWord (h.2 c hc)⟩

/-- A name, with or without something behind it. -/
theorem IsName.isBodyLine_append {s t : Bytes} (h : IsName s) (ht : newline ∉ t) :
    IsBodyLine (s ++ t) := by
  obtain ⟨c, r, rfl⟩ := List.exists_cons_of_ne_nil h.1
  have hline : newline ∉ (c :: r) ++ t := by
    rw [List.mem_append, not_or]
    refine ⟨fun hmem => ?_, ht⟩
    exact (isNameByte_plain (h.2 newline hmem)).2 (by simp)
  exact IsBodyLine.of_name hline (h.2 c List.mem_cons_self)

theorem IsName.isBodyLine {s : Bytes} (h : IsName s) : IsBodyLine s := by
  have hline := h.isBodyLine_append (t := []) List.not_mem_nil
  rwa [List.append_nil] at hline

/-! ### Blocks -/

namespace CanonicalText

/-- The names of the sections of canonical docstrings. -/
def sectionNames : List Bytes :=
  [SectionName.parameters, SectionName.returns, SectionName.yields, SectionName.examples]

theorem isName_of_mem_sectionNames : ∀ name ∈ sectionNames, IsName name := by decide +kernel

theorem isBodyLine_parameterHeader {p : ParameterText} (hname : IsName p.declared.name)
    (htype : IsPlainType p.type) : IsBodyLine (parameterHeader p) := by
  refine hname.isBodyLine_append ?_
  rw [List.mem_append, not_or]
  exact ⟨by decide, htype.one_line⟩

theorem isBodyLine_of_mem_entryLines {indent : Nat} {header description line : Bytes}
    (hheader : IsBodyLine header) (hdescription : IsDescription description)
    (h : line ∈ entryLines indent header description) : IsBodyLine line := by
  rw [entryLines, List.mem_cons, List.mem_singleton] at h
  rcases h with rfl | rfl
  · exact hheader.spaces_append indent
  · exact hdescription.isBodyLine.spaces_append (indent + 4)

namespace Sound

variable {t : CanonicalText}

theorem session_isBodyLine (h : t.Sound) : IsBodyLine t.session := by
  obtain ⟨r, hr⟩ := List.isPrefixOf_iff_prefix.1 h.session
  have hcons : ∃ r', t.session = byte '>' :: r' := ⟨_, hr.symm⟩
  obtain ⟨r', hr'⟩ := hcons
  rw [hr']
  exact IsBodyLine.of_cons (hr' ▸ h.session_line) (by decide) (by decide)

/-- What the lines of a section are like. -/
theorem mem_sections (h : t.Sound) {indent : Nat} {s : Bytes × List Bytes}
    (hs : s ∈ t.sections indent) : s.1 ∈ sectionNames ∧ ∀ line ∈ s.2, IsBodyLine line := by
  rw [sections, List.mem_append] at hs
  rcases hs with hs | hs
  · split at hs
    · cases hs
    · cases List.mem_singleton.1 hs
      refine ⟨by simp [sectionNames], fun line hline => ?_⟩
      obtain ⟨p, hp, hline⟩ := List.mem_flatMap.1 hline
      exact isBodyLine_of_mem_entryLines
        (isBodyLine_parameterHeader (h.parameter_name p hp) (h.parameter_type p hp))
        (h.parameter_description p hp) hline
  · simp only [List.mem_cons, List.not_mem_nil, or_false] at hs
    rcases hs with rfl | rfl | rfl
    · exact ⟨by simp [sectionNames], fun line =>
        isBodyLine_of_mem_entryLines h.returnType.isName.isBodyLine h.returnDescription⟩
    · exact ⟨by simp [sectionNames], fun line =>
        isBodyLine_of_mem_entryLines h.yieldType.isName.isBodyLine h.yieldDescription⟩
    · refine ⟨by simp [sectionNames], fun line hline => ?_⟩
      rw [List.mem_singleton.1 hline]
      exact h.session_isBodyLine.spaces_append indent

/-- What the lines of the blocks are like. -/
theorem mem_blocks (h : t.Sound) {indent : Nat} {block : List Bytes}
    (hblock : block ∈ t.blocks indent) :
    block ≠ [] ∧ ∀ line ∈ block, isBlank line = false ∧ IsTidy line := by
  have hmargin {s : Bytes} (hs : IsProse s) : [spaces indent ++ s] ≠ [] ∧
      ∀ line ∈ [spaces indent ++ s], isBlank line = false ∧ IsTidy line := by
    refine ⟨by simp, fun line hline => ?_⟩
    rw [List.mem_singleton.1 hline]
    exact ⟨by rw [isBlank_spaces_append, hs.not_blank], hs.isTidy.spaces_append indent⟩
  rw [blocks, List.mem_cons, List.mem_cons] at hblock
  rcases hblock with rfl | rfl | hblock
  · exact hmargin h.summary.toIsProse
  · exact hmargin h.extended
  · obtain ⟨s, hs, rfl⟩ := List.mem_map.1 hblock
    obtain ⟨hname, hbody⟩ := h.mem_sections hs
    have hheader := (isName_of_mem_sectionNames _ hname).isBodyLine.spaces_append indent
    refine ⟨by simp [sectionLines], fun line hline => ?_⟩
    rw [sectionLines, List.mem_cons, List.mem_cons] at hline
    rcases hline with rfl | rfl | hline
    · exact ⟨hheader.not_blank, hheader.toIsTidy⟩
    · obtain ⟨n, hn⟩ := Nat.exists_eq_succ_of_ne_zero
        (List.length_pos_iff.2 (isName_of_mem_sectionNames _ hname).1).ne'
      have hline : newline ∉ List.replicate (n + 1) (byte '-') := by
        rw [List.mem_replicate]
        rintro ⟨-, hnewline⟩
        exact absurd hnewline (by decide)
      rw [hn, isBlank_spaces_append]
      exact ⟨by simp [isBlank, List.replicate_succ, show isSpace (byte '-') = false from rfl],
        (IsTidy.of_cons hline (by decide) (by decide)).spaces_append indent⟩
    · exact ⟨(hbody line hline).not_blank, (hbody line hline).toIsTidy⟩

end Sound

/-! ### Blank lines -/

section Stacks

variable {gap closing : Bytes} {blocks : List (List Bytes)}

/-- Where one line is blank, the next one is not. -/
def BlankApart (lines : List Bytes) : Prop :=
  lines.IsChain fun a b => ¬ (isBlank a = true ∧ isBlank b = true)

/-- Lines that are not blank can stand above any others. -/
theorem BlankApart.append {front rest : List Bytes} (hrest : BlankApart rest)
    (hfront : ∀ line ∈ front, isBlank line = false) : BlankApart (front ++ rest) := by
  induction front with
  | nil => exact hrest
  | cons line front ih =>
      have hline := hfront line List.mem_cons_self
      refine List.isChain_cons.2 ⟨fun next _ => ?_, ih fun l hl => hfront l (.tail line hl)⟩
      simp [hline]

theorem mem_stack {line : Bytes} (h : line ∈ stack gap closing blocks) :
    line = gap ∨ line = closing ∨ ∃ block ∈ blocks, line ∈ block := by
  induction blocks with
  | nil => cases h
  | cons block rest ih =>
      have hhere : line ∈ block → ∃ b ∈ block :: rest, line ∈ b := fun hline =>
        ⟨block, List.mem_cons_self, hline⟩
      cases rest with
      | nil =>
          rcases List.mem_append.1 h with h | h
          · exact .inr (.inr (hhere h))
          · exact .inr (.inl (List.mem_singleton.1 h))
      | cons more rest =>
          rcases List.mem_append.1 h with h | h
          · exact .inr (.inr (hhere h))
          · rcases List.mem_cons.1 h with h | h
            · exact .inl h
            · rcases ih h with h | h | ⟨b, hb, h⟩
              · exact .inl h
              · exact .inr (.inl h)
              · exact .inr (.inr ⟨b, .tail block hb, h⟩)

variable (hblocks : ∀ block ∈ blocks, block ≠ [] ∧ ∀ line ∈ block, isBlank line = false)

include hblocks

/-- A stack does not begin with a blank line. -/
theorem head?_stack : ∀ line ∈ (stack gap closing blocks).head?, isBlank line = false := by
  cases blocks with
  | nil => simp [stack]
  | cons block rest =>
      obtain ⟨hne, hlines⟩ := hblocks block List.mem_cons_self
      obtain ⟨line, block, rfl⟩ := List.exists_cons_of_ne_nil hne
      have hline := hlines line List.mem_cons_self
      cases rest with
      | nil => simpa [stack] using hline
      | cons more rest => simpa [stack] using hline

/-- A stack ends with the closing line, below a line that is not blank. -/
theorem stack_eq_concat (hne : blocks ≠ []) :
    ∃ front last, stack gap closing blocks = front ++ [last, closing] ∧ isBlank last = false := by
  induction blocks with
  | nil => contradiction
  | cons block rest ih =>
      cases rest with
      | nil =>
          obtain ⟨hblock, hlines⟩ := hblocks block List.mem_cons_self
          obtain ⟨front, last, rfl⟩ : ∃ front last, block = front ++ [last] :=
            ⟨_, _, (List.dropLast_append_getLast hblock).symm⟩
          exact ⟨front, last, by simp [stack], hlines last (by simp)⟩
      | cons more rest =>
          obtain ⟨front, last, hstack, hlast⟩ :=
            ih (fun b hb => hblocks b (.tail block hb)) (List.cons_ne_nil more rest)
          exact ⟨block ++ gap :: front, last, by simp [stack, hstack], hlast⟩

/-- No two blank lines of a stack follow each other. -/
theorem isChain_stack : BlankApart (stack gap closing blocks) := by
  induction blocks with
  | nil => exact .nil
  | cons block rest ih =>
      have hblock := (hblocks block List.mem_cons_self).2
      have hrest : ∀ b ∈ rest, b ≠ [] ∧ ∀ line ∈ b, isBlank line = false :=
        fun b hb => hblocks b (.tail block hb)
      cases rest with
      | nil => exact BlankApart.append (.singleton closing) hblock
      | cons more rest =>
          refine BlankApart.append (List.isChain_cons.2 ⟨fun next hnext => ?_, ih hrest⟩) hblock
          simp [head?_stack hrest next hnext]

end Stacks

namespace Sound

variable {t : CanonicalText} (h : t.Sound) (indent blank : Nat)

include h

theorem isTidy_of_mem_lines {line : Bytes} (hline : line ∈ t.lines indent blank) :
    IsTidy line := by
  rcases List.mem_cons.1 hline with rfl | hline
  · exact IsTidy.nil
  · rcases mem_stack hline with rfl | rfl | ⟨block, hblock, hline⟩
    · exact IsTidy.spaces blank
    · exact IsTidy.spaces indent
    · exact ((h.mem_blocks hblock).2 line hline).2

theorem blocks_not_blank : ∀ block ∈ t.blocks indent,
    block ≠ [] ∧ ∀ line ∈ block, isBlank line = false := fun _ hblock =>
  ⟨(h.mem_blocks hblock).1, fun line hline => ((h.mem_blocks hblock).2 line hline).1⟩

theorem blankApart_lines : BlankApart (t.lines indent blank) := by
  have hblocks := h.blocks_not_blank indent
  refine List.isChain_cons.2 ⟨fun next hnext => ?_, isChain_stack hblocks⟩
  simp [head?_stack hblocks next hnext]

end Sound

end CanonicalText

end DocLint
