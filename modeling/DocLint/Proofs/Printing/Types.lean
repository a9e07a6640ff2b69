import DocLint.Proofs.Docstring.EntryHeader

/-!
# Type declarations as they are printed

A declaration is printed as types with `, ` or ` or ` between them, and `, optional` behind them any
number of times.  What is read back is what was printed, provided that no type can be taken apart: its
brackets are balanced, and it has neither a comma nor the word `or` outside of them.

* `IsSegment`, `IsType`: what a type must be like.
* `plainLength_append`, `groupLength_append`: a type is read as a whole, whatever follows it.
* `map_segments_print`, `ofText_print`: the segments and the types of a declaration.
-/

namespace DocLint

open Bytes

namespace TypeList

/-! ### Types -/

/-- How many brackets are open behind the first `k` bytes. -/
def openAt (s : Bytes) (k : Nat) : Int :=
  (s.take k).countP isOpenBracket - (s.take k).countP isCloseBracket

/-- The word `or` stands behind the first `k` bytes, between whitespace or the ends of the text. -/
def WordAt (s : Bytes) (k : Nat) : Prop :=
  startsWith (s.drop k) (ascii "or") = true ∧ (s.take k).getLast?.all isSpace = true ∧
    (s.drop (k + 2)).head?.all isSpace = true

/-- A text that is read as one segment: it has no whitespace at its ends, its brackets are balanced,
and commas and the word `or` stand inside of them; one that begins with a brace is closed by its last
byte. -/
structure IsSegment (s : Bytes) : Prop where
  ne_nil : s ≠ []
  strip_eq : strip s = s
  balanced : openAt s s.length = 0
  nonneg : ∀ k < s.length, 0 ≤ openAt s k
  comma_inside : ∀ k < s.length, s[k]? = some (byte ',') → openAt s k ≠ 0
  word_inside : ∀ k < s.length, WordAt s k → openAt s k ≠ 0
  closed_last : s.head? = some (byte '\x7b') → ∀ k < s.length, 0 < k → openAt s k ≠ 0

/-- A type is a segment other than the word that is counted. -/
structure IsType (s : Bytes) : Prop extends IsSegment s where
  ne_optional : s ≠ optionalWord

instance (s : Bytes) (k : Nat) : Decidable (WordAt s k) := inferInstanceAs (Decidable (_ ∧ _))

instance (s : Bytes) : Decidable (IsSegment s) :=
  decidable_of_iff (s ≠ [] ∧ strip s = s ∧ openAt s s.length = 0 ∧
      (∀ k < s.length, 0 ≤ openAt s k) ∧
      (∀ k < s.length, s[k]? = some (byte ',') → openAt s k ≠ 0) ∧
      (∀ k < s.length, WordAt s k → openAt s k ≠ 0) ∧
      (s.head? = some (byte '\x7b') → ∀ k < s.length, 0 < k → openAt s k ≠ 0))
    ⟨fun ⟨hne, hstrip, hbalanced, hnonneg, hcomma, hword, hclosed⟩ =>
        ⟨hne, hstrip, hbalanced, hnonneg, hcomma, hword, hclosed⟩,
      fun h => ⟨h.ne_nil, h.strip_eq, h.balanced, h.nonneg, h.comma_inside, h.word_inside,
        h.closed_last⟩⟩

instance (s : Bytes) : Decidable (IsType s) :=
  decidable_of_iff (IsSegment s ∧ s ≠ optionalWord) ⟨fun ⟨h, hne⟩ => ⟨h, hne⟩,
    fun h => ⟨h.toIsSegment, h.ne_optional⟩⟩

theorem openAt_succ {s : Bytes} {k : Nat} {c : UInt8} (h : s[k]? = some c) :
    openAt s (k + 1) = openAt s k +
      ((if isOpenBracket c then 1 else 0) - if isCloseBracket c then 1 else 0) := by
  rw [openAt, openAt, List.take_add_one, h, Option.toList_some, List.countP_append,
    List.countP_append, List.countP_singleton, List.countP_singleton]
  split <;> split <;> omega

theorem openAt_of_open {s : Bytes} {k : Nat} {c : UInt8} (h : s[k]? = some c)
    (hc : isOpenBracket c = true) : openAt s (k + 1) = openAt s k + 1 := by
  have hclose : isCloseBracket c = false := by
    simp only [isOpenBracket, Bool.or_eq_true, beq_iff_eq] at hc
    rcases hc with (rfl | rfl) | rfl <;> decide
  rw [openAt_succ h, if_pos hc, if_neg (by simp [hclose])]
  omega

theorem openAt_of_close {s : Bytes} {k : Nat} {c : UInt8} (h : s[k]? = some c)
    (hopen : isOpenBracket c = false) (hc : isCloseBracket c = true) :
    openAt s (k + 1) = openAt s k - 1 := by
  rw [openAt_succ h, if_neg (by simp [hopen]), if_pos hc]
  omega

theorem openAt_of_other {s : Bytes} {k : Nat} {c : UInt8} (h : s[k]? = some c)
    (hopen : isOpenBracket c = false) (hclose : isCloseBracket c = false) :
    openAt s (k + 1) = openAt s k := by
  rw [openAt_succ h, if_neg (by simp [hopen]), if_neg (by simp [hclose])]
  omega

theorem startsWith_word_iff {s : Bytes} :
    startsWith s (ascii "or") = true ↔ ∃ r, s = byte 'o' :: byte 'r' :: r := by
  rw [startsWith, List.isPrefixOf_iff_prefix]
  exact exists_congr fun r => eq_comm

namespace IsSegment

variable {s : Bytes} (h : IsSegment s)
include h

theorem openAt_nonneg {k : Nat} (hk : k ≤ s.length) : 0 ≤ openAt s k := by
  rcases Nat.lt_or_eq_of_le hk with hlt | rfl
  · exact h.nonneg k hlt
  · exact Int.le_of_eq h.balanced.symm

omit h in
/-- What is taken for the word `or` inside a text stands there, if nothing behind the text completes
it. -/
theorem wordAt_of_isConnective {tail : Bytes} (htail : tail.head? ≠ some (byte 'r')) {k : Nat}
    (hk : k < s.length) {last : Option UInt8} (hlast : k = 0 ∨ last = (s.take k).getLast?)
    (hword : isConnective last (s.drop k ++ tail) = true) : WordAt s k := by
  simp only [isConnective, Bool.and_eq_true, startsWith_word_iff] at hword
  obtain ⟨⟨⟨rest, hstart⟩, hbefore⟩, hbehind⟩ := hword
  have hfront : (s.take k).getLast?.all isSpace = true := by
    rcases hlast with rfl | rfl
    · rfl
    · exact hbefore
  obtain ⟨c, r, hr⟩ := List.exists_cons_of_length_pos (List.length_drop ▸ Nat.sub_pos_of_lt hk)
  rw [hr, List.cons_append, List.cons.injEq] at hstart
  obtain ⟨rfl, hstart⟩ := hstart
  rw [WordAt, ← List.drop_drop, hr]
  cases r with
  | nil =>
      rw [List.nil_append] at hstart
      rw [hstart] at htail
      exact absurd rfl htail
  | cons d r =>
      rw [List.cons_append, List.cons.injEq] at hstart
      obtain ⟨rfl, -⟩ := hstart
      refine ⟨startsWith_word_iff.2 ⟨r, rfl⟩, hfront, ?_⟩
      rw [hr] at hbehind
      cases r with
      | nil => rfl
      | cons e r => exact hbehind

/-- The scan of a segment reads all of it, and goes on with what follows. -/
theorem plainLength_append {tail : Bytes} (htail : tail.head? ≠ some (byte 'r')) {n k : Nat}
    (hk : k + n = s.length) {last : Option UInt8} (hlast : k = 0 ∨ last = (s.take k).getLast?) :
    plainLength (openAt s k).toNat last (s.drop k ++ tail) =
      n + plainLength 0 s.getLast? tail := by
  -- The induction is on what is left of the segment; the depth is that of the brackets read so far.
  induction n generalizing k last with
  | zero =>
      obtain rfl : k = s.length := hk
      have hlength := List.length_pos_iff.2 h.ne_nil
      rw [List.take_length] at hlast
      rw [h.balanced, List.drop_length, List.nil_append, Nat.zero_add,
        hlast.resolve_left (Nat.ne_of_gt hlength)]
      rfl
  | succ n ih =>
      have hlt : k < s.length := by omega
      have hget := List.getElem?_eq_getElem hlt
      have hdrop := List.drop_eq_getElem_cons hlt
      generalize s[k] = c at hget hdrop
      have hnext : some c = (s.take (k + 1)).getLast? := by
        rw [List.take_add_one, hget, Option.toList_some, List.getLast?_concat]
      have ih := ih (k := k + 1) (by omega) (.inr hnext)
      have hnonneg := h.nonneg k hlt
      rw [hdrop, List.cons_append, plainLength]
      by_cases hopen : isOpenBracket c = true
      · have hdepth : (openAt s k).toNat + 1 = (openAt s (k + 1)).toNat := by
          rw [openAt_of_open hget hopen]
          omega
        rw [if_pos hopen, hdepth, ih]
        omega
      rw [if_neg hopen]
      rw [Bool.not_eq_true] at hopen
      by_cases hclose : isCloseBracket c = true
      · have hdepth : (openAt s k).toNat - 1 = (openAt s (k + 1)).toNat := by
          rw [openAt_of_close hget hopen hclose]
          omega
        rw [if_pos hclose, hdepth, ih]
        omega
      rw [if_neg hclose]
      rw [Bool.not_eq_true] at hclose
      -- Outside brackets there is neither a comma nor the word.
      have hinside : ¬ ((openAt s k).toNat = 0 ∧
          (c = byte ',' ∨ isConnective last (c :: (s.drop (k + 1) ++ tail)) = true)) := by
        rintro ⟨hzero, hcomma | hword⟩
        · exact h.comma_inside k hlt (hcomma ▸ hget) (by omega)
        · rw [← List.cons_append, ← hdrop] at hword
          exact h.word_inside k hlt (wordAt_of_isConnective htail hlt hlast hword) (by omega)
      rw [if_neg hinside, ← openAt_of_other hget hopen hclose, ih]
      omega

/-- The scan of a segment in braces ends behind it. -/
theorem groupLength_append (hbrace : s.head? = some (byte '\x7b')) (tail : Bytes) {n k : Nat}
    (hk : k + n = s.length) (hn : 0 < n) :
    groupLength (openAt s k).toNat (s.drop k ++ tail) = n := by
  -- The brackets are balanced at the end of the segment, and nowhere before it.
  induction n generalizing k with
  | zero => exact absurd hn (Nat.lt_irrefl 0)
  | succ n ih =>
      have hlt : k < s.length := by omega
      have hget := List.getElem?_eq_getElem hlt
      have hdrop := List.drop_eq_getElem_cons hlt
      generalize s[k] = c at hget hdrop
      have hnonneg := h.openAt_nonneg (k := k) hlt.le
      have hnonneg' := h.openAt_nonneg (k := k + 1) hlt
      have hend : n = 0 → openAt s (k + 1) = 0 := fun hzero => by
        rw [show k + 1 = s.length by omega]
        exact h.balanced
      have hinner : n ≠ 0 → openAt s (k + 1) ≠ 0 := fun hne =>
        h.closed_last hbrace (k + 1) (by omega) (Nat.succ_pos k)
      have ih := fun hne : n ≠ 0 => ih (k := k + 1) (by omega) (Nat.pos_of_ne_zero hne)
      rw [hdrop, List.cons_append, groupLength]
      by_cases hopen : isOpenBracket c = true
      · have hstep := openAt_of_open hget hopen
        have hdepth : (openAt s k).toNat + 1 = (openAt s (k + 1)).toNat := by omega
        rw [if_pos hopen, hdepth, ih fun hzero => by have := hend hzero; omega]
      rw [if_neg hopen]
      rw [Bool.not_eq_true] at hopen
      by_cases hclose : isCloseBracket c = true
      · have hstep := openAt_of_close hget hopen hclose
        rw [if_pos hclose]
        by_cases hlast : (openAt s k).toNat ≤ 1
        · rw [if_pos hlast]
          by_contra hmore
          exact hinner (by omega) (by omega)
        · have hdepth : (openAt s k).toNat - 1 = (openAt s (k + 1)).toNat := by omega
          rw [if_neg hlast, hdepth, ih fun hzero => by have := hend hzero; omega]
      rw [if_neg hclose]
      rw [Bool.not_eq_true] at hclose
      have hstep := openAt_of_other hget hopen hclose
      have hinside : openAt s k ≠ 0 := by
        by_cases hfirst : k = 0
        · subst hfirst
          rw [← List.head?_eq_getElem?, hbrace] at hget
          cases hget
          cases hopen
        · exact h.closed_last hbrace k hlt (Nat.pos_of_ne_zero hfirst)
      rw [← hstep, ih fun hzero => hinside (hstep ▸ hend hzero)]

end IsSegment

/-! ### Declarations -/

/-- What stands between two types. -/
inductive Connective
  | comma
  | word

/-- The connective as it is printed. -/
def Connective.text : Connective → Bytes
  | comma => ascii ", "
  | word => ascii " or "

/-- Types behind connectives. -/
def printMore (more : List (Connective × Bytes)) : Bytes :=
  more.flatMap fun type => type.1.text ++ type.2

theorem printMore_cons (connective : Connective) (type : Bytes) (more : List (Connective × Bytes)) :
    printMore ((connective, type) :: more) =
      connective.text ++ (type ++ printMore more) := by
  rw [printMore, List.flatMap_cons, List.append_assoc, printMore]

/-- No connective could complete a word. -/
theorem head?_printMore (more : List (Connective × Bytes)) :
    (printMore more).head? ≠ some (byte 'r') := by
  cases more with
  | nil => simp [printMore]
  | cons type more =>
      obtain ⟨connective, type⟩ := type
      rw [printMore_cons]
      cases connective with
      | comma => exact fun h => absurd (Option.some.inj h) (by decide)
      | word => exact fun h => absurd (Option.some.inj h) (by decide)

/-- Types behind connectives leave the last byte no whitespace. -/
theorem strip_append_printMore {first : Bytes} (hfirst : IsSegment first)
    {more : List (Connective × Bytes)} (hmore : ∀ type ∈ more, IsSegment type.2) :
    strip (first ++ printMore more) = first ++ printMore more := by
  induction more generalizing first with
  | nil => rw [show printMore [] = [] from rfl, List.append_nil, hfirst.strip_eq]
  | cons type more ih =>
      obtain ⟨connective, type⟩ := type
      have htype := hmore _ List.mem_cons_self
      rw [printMore_cons]
      exact strip_append hfirst.strip_eq hfirst.ne_nil
        (ih htype fun t ht => hmore t (List.mem_cons_of_mem _ ht))
        (List.append_ne_nil_of_left_ne_nil htype.ne_nil _) connective.text

/-- The scan goes on over the space in front of the word. -/
theorem plainLength_connective (connective : Connective) (last : Option UInt8) (rest : Bytes) :
    plainLength 0 last (connective.text ++ rest) =
      match connective with
      | .comma => 0
      | .word => 1 := by
  cases connective with
  | comma => rfl
  | word =>
      have hspace : isConnective last (Connective.word.text ++ rest) = false := by
        rw [isConnective, show startsWith (Connective.word.text ++ rest) (ascii "or") = false from
          startsWith_cons_of_ne (by decide) _ _]
        rfl
      rw [show Connective.word.text ++ rest = space :: byte 'o' :: byte 'r' :: space :: rest from rfl]
        at hspace ⊢
      rw [plainLength, if_neg (by decide), if_neg (by decide), if_neg (by simp [hspace]; decide)]
      rfl

/-- Behind a segment the word is passed over, and so is a space in front of it. -/
theorem drop_separator_word {c : TypeCursor} {n : Nat} {rest : Bytes}
    (hrest : c.rest = spaces n ++ (byte 'o' :: byte 'r' :: space :: rest))
    (hseen : n = 0 → c.seen.head? = some space) :
    c.skipBlank.rest.drop (separatorLength c.skipBlank) = space :: rest := by
  have hleading : leading c.rest = n := by
    rw [hrest, leading_spaces_append]
    rfl
  have hbehind : c.skipBlank =
      ⟨spaces n ++ c.seen, byte 'o' :: byte 'r' :: space :: rest⟩ := by
    rw [TypeCursor.skipBlank, hleading, TypeCursor.skip, hrest, List.take_left' (length_spaces n),
      List.drop_left' (length_spaces n), spaces, List.reverse_replicate]
  have hhead : (spaces n ++ c.seen).head? = some space := by
    cases n with
    | zero => exact hseen rfl
    | succ n => rfl
  rw [hbehind, separatorLength]
  simp only [hhead]
  rfl

theorem IsSegment.segmentLength_append {s : Bytes} (h : IsSegment s) (seen : Bytes)
    (more : List (Connective × Bytes)) :
    segmentLength ⟨seen, s ++ printMore more⟩ =
      s.length + if s.head? = some (byte '\x7b') then 0
        else plainLength 0 s.getLast? (printMore more) := by
  have hhead : (s ++ printMore more).head? = s.head? := List.head?_append_of_ne_nil _ h.ne_nil
  rw [segmentLength, hhead]
  split
  next hbrace =>
    exact h.groupLength_append hbrace _ (Nat.zero_add _) (List.length_pos_iff.2 h.ne_nil)
  next => exact h.plainLength_append (head?_printMore more) (Nat.zero_add _) (.inl rfl)

/-- The last segment ends the text. -/
theorem IsSegment.read_last {s : Bytes} (h : IsSegment s) (seen : Bytes) :
    s.take (segmentLength ⟨seen, s⟩) = s ∧ (afterSegment ⟨seen, s⟩).rest = [] := by
  have hlength := h.segmentLength_append seen []
  rw [show printMore [] = [] from rfl, List.append_nil, plainLength, ite_self, Nat.add_zero]
    at hlength
  refine ⟨by rw [hlength, List.take_length], ?_⟩
  simp only [afterSegment, TypeCursor.skipBlank, TypeCursor.rest_skip, hlength, List.drop_length,
    List.drop_nil]

/-- A segment ends in front of a connective, or behind the space that the connective begins with. -/
theorem IsSegment.read {s : Bytes} (h : IsSegment s) (seen : Bytes) (connective : Connective)
    (type : Bytes) (more : List (Connective × Bytes)) :
    let here : TypeCursor := ⟨seen, s ++ printMore ((connective, type) :: more)⟩
    strip (here.rest.take (segmentLength here)) = s ∧
      (afterSegment here).rest = spaces 1 ++ (type ++ printMore more) := by
  have hlength := h.segmentLength_append seen ((connective, type) :: more)
  rw [printMore_cons] at hlength ⊢
  rw [plainLength_connective] at hlength
  dsimp only [afterSegment]
  rw [TypeCursor.rest_skip]
  cases connective with
  | comma =>
      rw [ite_self, Nat.add_zero] at hlength
      have hrest : (TypeCursor.skip ⟨seen, s ++ (Connective.comma.text ++ (type ++ printMore more))⟩
          s.length).rest = byte ',' :: space :: (type ++ printMore more) := List.drop_left
      rw [hlength, List.take_left, h.strip_eq]
      refine ⟨rfl, ?_⟩
      generalize TypeCursor.skip _ _ = behind at hrest ⊢
      have hblank : behind.skipBlank = behind := by
        rw [TypeCursor.skipBlank, hrest]
        exact behind.skip_zero
      rw [hblank, separatorLength, hrest]
      rfl
  | word =>
      have hword : Connective.word.text ++ (type ++ printMore more) =
          spaces 1 ++ (byte 'o' :: byte 'r' :: space :: (type ++ printMore more)) := rfl
      rw [hword] at hlength ⊢
      dsimp only at hlength
      rw [hlength]
      split
      next =>
        rw [Nat.add_zero, List.take_left, h.strip_eq]
        exact ⟨rfl, drop_separator_word List.drop_left fun h => absurd h Nat.one_ne_zero⟩
      next =>
        have hsplit : s ++ (spaces 1 ++ (byte 'o' :: byte 'r' :: space :: (type ++ printMore more))) =
            (s ++ [space]) ++ (byte 'o' :: byte 'r' :: space :: (type ++ printMore more)) :=
          (List.append_assoc _ _ _).symm
        have hend : s.length + 1 = (s ++ [space]).length := by rw [List.length_append]; rfl
        rw [hsplit, hend, List.take_left, strip_append_space h.strip_eq h.ne_nil]
        refine ⟨rfl, drop_separator_word (n := 0) List.drop_left fun _ => ?_⟩
        rw [TypeCursor.skip, List.take_left, List.reverse_append]
        rfl

/-- One round of the splitting. -/
theorem map_segments_of_skipBlank {c : TypeCursor} {seen s : Bytes} (hne : s ≠ [])
    (h : c.skipBlank = ⟨seen, s⟩) :
    (segments c).map (fun segment => strip segment.2) =
      strip (s.take (segmentLength ⟨seen, s⟩)) ::
        (segments (afterSegment ⟨seen, s⟩)).map fun segment => strip segment.2 := by
  rw [segments, h]
  simp only [hne, if_false, List.map_cons]

theorem segments_of_rest_nil {c : TypeCursor} (h : c.rest = []) : segments c = [] := by
  have hrest : c.skipBlank.rest = [] := by
    rw [TypeCursor.skipBlank, TypeCursor.rest_skip, h, List.drop_nil]
  rw [segments]
  exact if_pos hrest

theorem IsSegment.skipBlank_eq {s : Bytes} (h : IsSegment s) {c : TypeCursor} {n : Nat}
    {rest : Bytes} (hc : c.rest = spaces n ++ (s ++ rest)) :
    ∃ seen, c.skipBlank = ⟨seen, s ++ rest⟩ := by
  have hleading : leading c.rest = n := by
    rw [hc, leading_spaces_append, leading_append_of_strip h.strip_eq h.ne_nil, Nat.add_zero]
  rw [TypeCursor.skipBlank, hleading, TypeCursor.skip, hc, List.drop_left' (length_spaces n)]
  exact ⟨_, rfl⟩

/-- The segments of types behind connectives are the types. -/
theorem map_segments {first : Bytes} (hfirst : IsSegment first)
    {more : List (Connective × Bytes)} (hmore : ∀ type ∈ more, IsSegment type.2) {c : TypeCursor}
    {n : Nat} (hc : c.rest = spaces n ++ (first ++ printMore more)) :
    (segments c).map (fun segment => strip segment.2) = first :: more.map Prod.snd := by
  -- Behind every connective there is one space left in front of the next type.
  induction more generalizing first c n with
  | nil =>
      obtain ⟨seen, hskip⟩ := hfirst.skipBlank_eq hc
      rw [show printMore [] = [] from rfl, List.append_nil] at hskip
      obtain ⟨htake, hrest⟩ := hfirst.read_last seen
      rw [map_segments_of_skipBlank hfirst.ne_nil hskip, htake, hfirst.strip_eq,
        segments_of_rest_nil hrest]
      rfl
  | cons type more ih =>
      obtain ⟨connective, type⟩ := type
      obtain ⟨seen, hskip⟩ := hfirst.skipBlank_eq hc
      obtain ⟨htake, hrest⟩ := hfirst.read seen connective type more
      have htype := hmore _ List.mem_cons_self
      have hne : first ++ printMore ((connective, type) :: more) ≠ [] :=
        List.append_ne_nil_of_left_ne_nil hfirst.ne_nil _
      rw [map_segments_of_skipBlank hne hskip, htake,
        ih htype (fun t ht => hmore t (List.mem_cons_of_mem _ ht)) hrest]
      rfl

/-- A type declaration before it is printed. -/
structure Declared where
  first : Bytes
  /-- The other types, each with the connective in front of it. -/
  more : List (Connective × Bytes)
  /-- How often it says `optional` behind the types. -/
  optionals : Nat

namespace Declared

/-- The types of the declaration. -/
def types (d : Declared) : List Bytes := d.first :: d.more.map Prod.snd

/-- The declaration as it is printed. -/
def print (d : Declared) : Bytes :=
  d.first ++ printMore (d.more ++ List.replicate d.optionals (.comma, optionalWord))

theorem isSegment_optionalWord : IsSegment optionalWord := by decide

variable {d : Declared} (h : ∀ type ∈ d.types, IsType type)
include h

/-- All that is printed behind the first type can be read as segments. -/
theorem isSegment_more :
    ∀ type ∈ d.more ++ List.replicate d.optionals (.comma, optionalWord), IsSegment type.2 := by
  intro type htype
  rcases List.mem_append.1 htype with htype | htype
  · exact (h type.2 (List.mem_cons_of_mem _ (List.mem_map_of_mem htype))).toIsSegment
  · rw [List.eq_of_mem_replicate htype]
    exact isSegment_optionalWord

theorem strip_print : strip d.print = d.print :=
  strip_append_printMore (h d.first List.mem_cons_self).toIsSegment (isSegment_more h)

theorem print_ne_nil : d.print ≠ [] :=
  List.append_ne_nil_of_left_ne_nil (h d.first List.mem_cons_self).ne_nil _

/-- The segments of a declaration are its types, and the word as often as it is said. -/
theorem map_segments_print (origin : Position) :
    ((segments { rest := d.print }).map (ofSegment origin)).map Fragment.value =
      d.types ++ List.replicate d.optionals optionalWord := by
  rw [List.map_map]
  refine (map_segments (n := 0) (h d.first List.mem_cons_self).toIsSegment (isSegment_more h)
    rfl).trans ?_
  rw [List.map_append, List.map_replicate, types, List.cons_append]

/-- A declaration is read as the types that it was made of, and says `optional` as often. -/
theorem ofText_print (origin : Position) :
    (ofText d.print origin 0).types.map Fragment.value = d.types ∧
      (ofText d.print origin 0).optionalCount = UInt32.ofNat d.optionals := by
  have hvalues := map_segments_print h origin
  rw [ofText]
  generalize (segments { rest := d.print }).map (ofSegment origin) = found at hvalues ⊢
  have hlisted : found.filter (fun type => !type.value.isEmpty) = found := by
    rw [List.filter_eq_self]
    intro type htype
    have hvalue := List.mem_map_of_mem (f := Fragment.value) htype
    rw [hvalues, List.mem_append] at hvalue
    have hne : type.value ≠ [] := by
      rcases hvalue with hvalue | hvalue
      · exact (h _ hvalue).ne_nil
      · rw [List.eq_of_mem_replicate hvalue]
        decide
    simpa using hne
  have hother : ∀ value ∈ d.types, (value != optionalWord) = true := fun value hvalue =>
    bne_iff_ne.2 (h value hvalue).ne_optional
  have hnone : d.types.countP (· == optionalWord) = 0 :=
    List.countP_eq_zero.2 fun value hvalue => by simpa using (h value hvalue).ne_optional
  have hcount : (found.map Fragment.value).countP (· == optionalWord) = d.optionals := by
    rw [hvalues, List.countP_append, hnone, List.countP_replicate, if_pos (by decide),
      Nat.zero_add]
  have htypes : (found.map Fragment.value).filter (· != optionalWord) = d.types := by
    rw [hvalues, List.filter_append, List.filter_eq_self.2 hother, List.filter_replicate,
      if_neg (by decide), List.append_nil]
  rw [List.countP_map] at hcount
  rw [List.filter_map] at htypes
  dsimp only
  rw [hlisted]
  refine ⟨htypes, ?_⟩
  rw [show found.countP (fun type => type.value == optionalWord) = d.optionals from hcount,
    UInt32.zero_add]

end Declared

end TypeList

end DocLint
