import DocLint.Proofs.Check.Slices
import DocLint.Proofs.Text.Edges

/-!
# Padded texts

Spaces and carriage returns behind a text are padding.  Whatever strips a text, or looks in it for
something that ends with another byte, does not see the padding.

* `unpad`, `exists_eq_unpad_append`: a text is its unpadded part with padding behind it.
* `IgnoresPadding`: functions that do not see the padding; `IgnoresPadding.unpad_eq` reads them on
  the unpadded text.
* `leading_append_padding`, `stripStart_append_padding`: the front of a text that is not blank.
* `ignoresPadding_tabSpan?`, `ignoresPadding_bareDirective?`, `length_tightColons_padding`: what rules
  look for on a line.
-/

namespace DocLint

namespace Bytes

/-- A space or a carriage return. -/
def isPadding (c : UInt8) : Bool := c == space || c == carriageReturn

/-- Nothing but padding. -/
def IsPadding (w : Bytes) : Prop := ∀ c ∈ w, isPadding c = true

/-- The text without the padding behind it. -/
def unpad (s : Bytes) : Bytes := s.rdropWhile isPadding

/-- The function sees no padding behind a text. -/
def IgnoresPadding {α : Type} (f : Bytes → α) : Prop := ∀ s w, IsPadding w → f (s ++ w) = f s

theorem exists_eq_unpad_append (s : Bytes) : ∃ w, IsPadding w ∧ s = unpad s ++ w :=
  ⟨s.rtakeWhile isPadding, fun _ hc => List.mem_rtakeWhile_imp hc,
    List.rdropWhile_append_rtakeWhile.symm⟩

theorem ignoresPadding_unpad : IgnoresPadding unpad := by
  intro s w hw
  rw [unpad, List.rdropWhile, List.reverse_append,
    List.dropWhile_append_of_pos fun c hc => hw c (List.mem_reverse.1 hc)]
  rfl

theorem IgnoresPadding.unpad_eq {α : Type} {f : Bytes → α} (h : IgnoresPadding f) (s : Bytes) :
    f (unpad s) = f s := by
  obtain ⟨w, hw, hs⟩ := exists_eq_unpad_append s
  conv => rhs; rw [hs, h _ w hw]

theorem isPadding_cases {c : UInt8} (h : isPadding c = true) : c = space ∨ c = carriageReturn := by
  rcases Bool.or_eq_true _ _ ▸ h with h | h
  · exact .inl (beq_iff_eq.1 h)
  · exact .inr (beq_iff_eq.1 h)

theorem unpad_unpad (s : Bytes) : unpad (unpad s) = unpad s := ignoresPadding_unpad.unpad_eq s

theorem isSpace_of_isPadding {c : UInt8} (h : isPadding c = true) : isSpace c = true := by
  rcases isPadding_cases h with rfl | rfl
  · rfl
  · rfl

theorem IsPadding.isBlank {w : Bytes} (h : IsPadding w) : isBlank w = true :=
  List.all_eq_true.2 fun c hc => isSpace_of_isPadding (h c hc)

theorem IsPadding.not_mem {w : Bytes} (h : IsPadding w) {c : UInt8} (hc : isPadding c = false) :
    c ∉ w := fun hmem => by
  rw [h c hmem] at hc
  cases hc

theorem IsPadding.head_ne {c : UInt8} {r : Bytes} (h : IsPadding (c :: r)) {b : UInt8}
    (hb : isPadding b = false) : c ≠ b := fun heq => h.not_mem hb (heq ▸ List.mem_cons_self)

/-! ### Edges -/

theorem ignoresPadding_isBlank : IgnoresPadding isBlank := by
  intro s w hw
  rw [isBlank, List.all_append, show w.all isSpace = true from hw.isBlank, Bool.and_true, isBlank]

theorem ignoresPadding_stripEnd : IgnoresPadding stripEnd := by
  intro s w hw
  rw [stripEnd, List.reverse_append, List.dropWhile_append_of_pos fun c hc =>
    isSpace_of_isPadding (hw c (List.mem_reverse.1 hc)), stripEnd]

theorem ignoresPadding_takeWhile {p : UInt8 → Bool} (hp : ∀ c, isPadding c = true → p c = false) :
    IgnoresPadding (List.takeWhile p) := by
  intro s w hw
  rw [List.takeWhile_append]
  split
  next hall =>
    have hnone : w.takeWhile p = [] := by
      cases w with
      | nil => rfl
      | cons c r => rw [List.takeWhile_cons_of_neg (by simp [hp c (hw c List.mem_cons_self)])]
    rw [hnone, List.append_nil]
    exact ((List.takeWhile_prefix p).eq_of_length hall).symm
  · rfl

theorem ignoresPadding_any_head? {p : UInt8 → Bool} (hp : ∀ c, isPadding c = true → p c = false) :
    IgnoresPadding fun s => s.head?.any p := by
  intro s w hw
  cases s with
  | cons b r => rfl
  | nil =>
      cases w with
      | nil => rfl
      | cons c w => exact hp c (hw c List.mem_cons_self)

theorem ignoresPadding_head? {c : UInt8} (hc : isPadding c = false) :
    IgnoresPadding fun s => s.head? = some c := by
  intro s w hw
  cases s with
  | cons b r => rfl
  | nil =>
      have hno : w.head? ≠ some c := fun h => hw.not_mem hc (List.mem_of_head? h)
      exact propext ⟨fun h => absurd h hno, fun h => by cases h⟩

/-- Behind some bytes of a text, too, there is padding behind the rest of it. -/
theorem IgnoresPadding.drop {α : Type} {f : Bytes → α} (h : IgnoresPadding f) (n : Nat) :
    IgnoresPadding fun s => f (s.drop n) := by
  intro s w hw
  show f ((s ++ w).drop n) = f (s.drop n)
  rw [List.drop_append]
  exact h _ _ fun c hc => hw c (List.mem_of_mem_drop hc)

section Front

variable {s : Bytes}

variable (hs : isBlank s = false)
include hs

/-- A text that is not blank has its leading whitespace in front of its padding. -/
theorem takeWhile_isSpace_append (w : Bytes) :
    (s ++ w).takeWhile isSpace = s.takeWhile isSpace := by
  rw [List.takeWhile_append, if_neg]
  intro hall
  rw [leading_eq_length_iff.1 hall] at hs
  cases hs

theorem leading_append_padding (w : Bytes) : leading (s ++ w) = leading s := by
  rw [leading, takeWhile_isSpace_append hs, leading]

theorem stripStart_append_padding (w : Bytes) : stripStart (s ++ w) = stripStart s ++ w := by
  have hne : s.dropWhile isSpace ≠ [] := fun hnil => by
    rw [stripStart_eq_nil_iff.1 hnil] at hs
    cases hs
  rw [stripStart, List.dropWhile_append, if_neg (by simpa using hne), stripStart]

end Front

theorem stripStart_padding_of_blank {s w : Bytes} (hw : IsPadding w) (hs : isBlank s = true) :
    stripStart (s ++ w) = [] := by
  rw [stripStart_eq_nil_iff, ignoresPadding_isBlank s w hw, hs]

theorem ignoresPadding_strip : IgnoresPadding strip := by
  intro s w hw
  cases hs : isBlank s with
  | true =>
      have hs' : isBlank (s ++ w) = true := (ignoresPadding_isBlank s w hw).trans hs
      rw [strip_eq_nil_iff.2 hs, strip_eq_nil_iff.2 hs']
  | false => rw [strip, stripStart_append_padding hs, ignoresPadding_stripEnd _ w hw, strip]

/-- The first word of a text ends in front of the padding. -/
theorem ignoresPadding_firstWord :
    IgnoresPadding fun s => (stripStart s).takeWhile fun c => !isSpace c := by
  intro s w hw
  cases hs : isBlank s with
  | true => simp only [stripStart_padding_of_blank hw hs, stripStart_eq_nil_iff.2 hs]
  | false =>
      simp only [stripStart_append_padding hs]
      exact ignoresPadding_takeWhile (fun c hc => congrArg not (isSpace_of_isPadding hc)) _ w hw

/-! ### Looking for a text -/

/-- The text does not end with padding. -/
def EndsSolid (t : Bytes) : Prop := ∀ c ∈ t.getLast?, isPadding c = false

instance (t : Bytes) : Decidable (EndsSolid t) :=
  decidable_of_iff ((t.getLast?.all fun c => !isPadding c) = true) <| by
    simp only [EndsSolid, Option.all_eq_true, Option.mem_def, Bool.not_eq_true']

theorem endsSolid_unpad (s : Bytes) : EndsSolid (unpad s) := by
  intro c hc
  obtain ⟨hne, hlast⟩ := List.mem_getLast?_eq_getLast hc
  rw [hlast]
  exact Bool.eq_false_iff.2 (List.rdropWhile_last_not isPadding s hne)

theorem unpad_eq_self {s : Bytes} (h : EndsSolid s) : unpad s = s := by
  refine List.rdropWhile_eq_self_iff.2 fun hne => ?_
  rw [h _ (List.getLast?_eq_some_getLast hne)]
  exact Bool.false_ne_true

/-- Some bytes in front of the last one that is no padding make no difference. -/
theorem unpad_drop {s : Bytes} (hs : isBlank s = false) {k : Nat} (hk : k ≤ leading s) :
    unpad (s.drop k) = (unpad s).drop k := by
  obtain ⟨w, hw, hsplit⟩ := exists_eq_unpad_append s
  have hreadable : isBlank (unpad s) = false := by rw [ignoresPadding_isBlank.unpad_eq, hs]
  have hk' : k ≤ (unpad s).length := by
    rw [hsplit, leading_append_padding hreadable] at hk
    exact Nat.le_trans hk (leading_le _)
  have hsolid : EndsSolid ((unpad s).drop k) := fun c hc => by
    rw [List.getLast?_drop] at hc
    split at hc
    · cases hc
    · exact endsSolid_unpad s c hc
  conv => lhs; rw [hsplit, List.drop_append_of_le_length hk']
  rw [ignoresPadding_unpad _ w hw, unpad_eq_self hsolid]

theorem leading_unpad {s : Bytes} (hs : isBlank s = false) : leading (unpad s) = leading s := by
  obtain ⟨w, -, hsplit⟩ := exists_eq_unpad_append s
  have hreadable : isBlank (unpad s) = false := by rw [ignoresPadding_isBlank.unpad_eq, hs]
  conv => rhs; rw [hsplit, leading_append_padding hreadable]

theorem ignoresPadding_startsWith {t : Bytes} (ht : EndsSolid t) :
    IgnoresPadding fun s => startsWith s t := by
  intro s w hw
  have hiff : t <+: s ++ w ↔ t <+: s := by
    induction w generalizing s with
    | nil => rw [List.append_nil]
    | cons c w ih =>
        have hrest := ih (s ++ [c]) fun b hb => hw b (List.mem_cons_of_mem c hb)
        rw [List.append_assoc, List.singleton_append] at hrest
        rw [hrest, List.prefix_concat_iff, or_iff_right]
        -- The last byte of the text is no padding.
        intro hlast
        have hc := ht c (by rw [hlast]; simp)
        rw [hw c List.mem_cons_self] at hc
        cases hc
  show startsWith (s ++ w) t = startsWith s t
  rw [Bool.eq_iff_iff, startsWith, startsWith, List.isPrefixOf_iff_prefix,
    List.isPrefixOf_iff_prefix, hiff]

theorem ignoresPadding_offsetOf? {t : Bytes} (hne : t ≠ []) (ht : EndsSolid t) :
    IgnoresPadding (offsetOf? t) := by
  intro s w hw
  have hstarts := ignoresPadding_startsWith ht
  induction s with
  | nil =>
      have hnone : offsetOf? t [] = none := if_neg hne
      rw [List.nil_append, hnone]
      induction w with
      | nil => exact hnone
      | cons c r ih =>
          have hno : startsWith (c :: r) t = startsWith [] t := hstarts [] (c :: r) hw
          have hempty : startsWith [] t = false := by
            rw [startsWith, Bool.eq_false_iff]
            exact fun h => hne (List.prefix_nil.1 (List.isPrefixOf_iff_prefix.1 h))
          rw [offsetOf?, hno, hempty, if_neg Bool.false_ne_true,
            ih fun b hb => hw b (List.mem_cons_of_mem c hb)]
          rfl
  | cons c r ih =>
      have hno : startsWith (c :: (r ++ w)) t = startsWith (c :: r) t := hstarts (c :: r) w hw
      rw [List.cons_append, offsetOf?, hno, ih, offsetOf?]

end Bytes

/-! ### What rules look for on a line -/

namespace Check

open Bytes

/-- The tabs of an indentation stand in front of the padding, also on a blank line. -/
theorem ignoresPadding_tabSpan? (p : Position) : IgnoresPadding fun s => tabSpan? ⟨p, s⟩ := by
  intro s w hw
  show tabSpan? ⟨p, s ++ w⟩ = tabSpan? ⟨p, s⟩
  cases hs : isBlank s with
  | false =>
      unfold tabSpan?
      simp only [takeWhile_isSpace_append hs]
      rfl
  | true =>
      have hall {t : Bytes} (ht : isBlank t = true) : t.takeWhile isSpace = t :=
        List.takeWhile_eq_self_iff.2 (List.all_eq_true.1 ht)
      have hno : tab ∉ w := hw.not_mem (by decide)
      unfold tabSpan?
      simp only [hall hs, hall ((ignoresPadding_isBlank s w hw).trans hs), List.mem_append, hno,
        or_false]
      by_cases htab : tab ∈ s
      · have hfirst : ((s ++ w).takeWhile (· ≠ tab)).length = (s.takeWhile (· ≠ tab)).length := by
          rw [List.takeWhile_append, if_neg]
          exact fun hlength => absurd (length_takeWhile_eq_iff.1 hlength tab htab) (by decide)
        have hbehind : ((s ++ w).reverse.takeWhile (· ≠ tab)).length =
            w.length + (s.reverse.takeWhile (· ≠ tab)).length := by
          have hplain : ∀ c ∈ w.reverse, decide (c ≠ tab) = true := fun c hc =>
            decide_eq_true fun heq => hno (heq ▸ List.mem_reverse.1 hc)
          rw [List.reverse_append, List.takeWhile_append_of_pos hplain, List.length_append,
            List.length_reverse]
        rw [if_pos htab, if_pos htab, hfirst, hbehind, List.length_append, Nat.add_comm s.length,
          Nat.add_sub_add_left]
        rfl
      · rw [if_neg htab, if_neg htab]

theorem endsSolid_of_mem_directiveNames {name : Bytes} (h : name ∈ directiveNames) :
    name ≠ [] ∧ EndsSolid name := by
  simp only [directiveNames, List.mem_cons, List.not_mem_nil, or_false] at h
  rcases h with rfl | rfl | rfl
  · exact ⟨by decide, by decide⟩
  · exact ⟨by decide, by decide⟩
  · exact ⟨by decide, by decide⟩

theorem isPadding_toLower {w : Bytes} (hw : IsPadding w) : IsPadding (toLower w) := by
  intro c hc
  obtain ⟨b, hb, rfl⟩ := List.mem_map.1 hc
  rcases isPadding_cases (hw b hb) with rfl | rfl
  · rfl
  · rfl

/-- The name of a directive that a text begins with stands in front of the padding. -/
theorem find?_directiveNames_padding (s : Bytes) {w : Bytes} (hw : IsPadding w) :
    (directiveNames.find? fun name => startsWith (toLower (s ++ w)) name) =
      directiveNames.find? fun name => startsWith (toLower s) name := by
  rw [← List.head?_filter, ← List.head?_filter]
  refine congrArg List.head? (List.filter_congr fun name hname => ?_)
  rw [toLower, List.map_append]
  exact ignoresPadding_startsWith (endsSolid_of_mem_directiveNames hname).2 _ _
    (isPadding_toLower hw)

/-- The name that a directive begins with behind its dots, unless two colons follow. -/
def directiveName? (text : Bytes) : Option Bytes :=
  match directiveNames.find? fun name => startsWith (toLower text) name with
  | none => none
  | some name =>
    if startsWith (text.drop name.length) (ascii "::") then none else some (text.take name.length)

theorem bareDirective?_eq (s : Bytes) :
    bareDirective? s =
      if startsWith (stripStart s) (ascii ".. ") then
        (directiveName? ((stripStart s).drop 3)).map fun name => (leading s, name)
      else none := by
  unfold bareDirective? directiveName?
  dsimp only
  cases directiveNames.find? fun name => startsWith (toLower ((stripStart s).drop 3)) name with
  | none => rfl
  | some name =>
      dsimp only
      rw [apply_ite (Option.map fun name => (leading s, name))]
      rfl

theorem ignoresPadding_directiveName? : IgnoresPadding directiveName? := by
  intro s w hw
  unfold directiveName?
  rw [find?_directiveNames_padding s hw]
  cases hfound : directiveNames.find? fun name => startsWith (toLower s) name with
  | none => rfl
  | some name =>
      have hname : name.length ≤ s.length := by
        have hle := length_le_of_startsWith (List.find?_some hfound)
        rwa [toLower, List.length_map] at hle
      have hcolons : startsWith (s.drop name.length ++ w) (ascii "::") =
          startsWith (s.drop name.length) (ascii "::") :=
        ignoresPadding_startsWith (by decide) _ w hw
      simp only [List.drop_append_of_le_length hname, hcolons, List.take_append_of_le_length hname]

theorem ignoresPadding_bareDirective? : IgnoresPadding bareDirective? := by
  intro s w hw
  rw [bareDirective?_eq, bareDirective?_eq]
  cases hs : isBlank s with
  | true =>
      rw [stripStart_padding_of_blank hw hs, stripStart_eq_nil_iff.2 hs]
      rfl
  | false =>
      have hname : directiveName? ((stripStart s ++ w).drop 3) =
          directiveName? ((stripStart s).drop 3) :=
        ignoresPadding_directiveName?.drop 3 _ w hw
      rw [stripStart_append_padding hs, leading_append_padding hs, hname]
      generalize stripStart s = text
      by_cases hdots : startsWith text (ascii ".. ") = true
      case pos =>
        have hdots' : startsWith (text ++ w) (ascii ".. ") = true :=
          List.isPrefixOf_iff_prefix.2
            ((List.isPrefixOf_iff_prefix.1 hdots).trans (List.prefix_append text w))
        rw [if_pos hdots, if_pos hdots']
      case neg =>
        rw [if_neg hdots]
        split
        next hdots' =>
          -- The space behind the dots is padding, and no name stands in front of it.
          have hshort : text.length ≤ 3 := Nat.le_of_not_lt fun hlt => hdots <|
            List.isPrefixOf_iff_prefix.2 <| List.prefix_of_prefix_length_le
              (List.isPrefixOf_iff_prefix.1 hdots') (List.prefix_append text w) (Nat.le_of_lt hlt)
          rw [List.drop_of_length_le hshort]
          rfl
        · rfl

/-! ### Colons -/

/-- No tight colon stands in padding. -/
theorem tightLength_of_isPadding (atStart : Bool) {w : Bytes} (hw : IsPadding w) :
    tightLength atStart w = 0 := by
  cases w with
  | nil => rfl
  | cons c r =>
      have hspace : isSpace c = true := isSpace_of_isPadding (hw c List.mem_cons_self)
      have hcolon : (c == byte ':') = false := beq_eq_false_iff_ne.2 (hw.head_ne (by decide))
      have hstart : startsWith (stripStart (c :: r)) (ascii ":") = false := by
        rw [stripStart_eq_nil_iff.2 hw.isBlank]
        rfl
      simp only [tightLength, hspace, hcolon, hstart, Bool.not_true, Bool.false_and, Bool.and_false,
        Bool.false_eq_true, if_false]

theorem tightColonsFrom_of_isPadding (skip offset : Nat) {w : Bytes} (hw : IsPadding w) :
    tightColonsFrom skip offset w = [] := by
  fun_induction tightColonsFrom skip offset w with
  | case1 => rfl
  | case2 _ _ c _ ih => exact ih fun b hb => hw b (List.mem_cons_of_mem c hb)
  | case3 _ c _ _ ih => exact ih fun b hb => hw b (List.mem_cons_of_mem c hb)
  | case4 offset c r n hfound _ =>
      rw [tightLength_of_isPadding _ hw] at hfound
      cases hfound

theorem tightColonsFrom_of_length_le {skip : Nat} {s : Bytes} (h : s.length ≤ skip)
    (offset : Nat) : tightColonsFrom skip offset s = [] := by
  induction s generalizing skip offset with
  | nil => rw [tightColonsFrom]
  | cons c r ih =>
      rw [List.length_cons] at h
      obtain ⟨rest, rfl⟩ := Nat.exists_eq_add_of_le' (Nat.le_of_add_left_le h)
      rw [tightColonsFrom]
      exact ih (Nat.le_of_succ_le_succ h) _

/-- A tight colon is as long without the padding, unless nothing but whitespace stands behind it:
then it takes all that is left. -/
theorem tightLength_padding (atStart : Bool) (c : UInt8) (r : Bytes) {w : Bytes}
    (hw : IsPadding w) :
    tightLength atStart (c :: (r ++ w)) = tightLength atStart (c :: r) ∨
      tightLength atStart (c :: r) = r.length + 1 ∧
        tightLength atStart (c :: (r ++ w)) = (r ++ w).length + 1 := by
  have hcolon : ((r ++ w).head? == some (byte ':')) = (r.head? == some (byte ':')) := by
    rw [Bool.eq_iff_iff, beq_iff_eq, beq_iff_eq]
    exact (ignoresPadding_head? (by decide) r w hw).to_iff
  have hsolid : ((r ++ w).head?.any fun d => !isSpace d) = r.head?.any fun d => !isSpace d :=
    ignoresPadding_any_head? (fun d hd => congrArg not (isSpace_of_isPadding hd)) r w hw
  have hstart : startsWith (stripStart (c :: (r ++ w))) (ascii ":") =
      startsWith (stripStart (c :: r)) (ascii ":") := by
    rw [← List.cons_append]
    cases hs : isBlank (c :: r) with
    | true => rw [stripStart_padding_of_blank hw hs, stripStart_eq_nil_iff.2 hs]
    | false =>
        rw [stripStart_append_padding hs]
        exact ignoresPadding_startsWith (by decide) _ w hw
  simp only [tightLength, hcolon, hsolid, ignoresPadding_isBlank r w hw, hstart]
  split_ifs with _ _ _ hfirst
  · exact .inl rfl
  · exact .inl rfl
  · exact .inr ⟨rfl, rfl⟩
  · -- The colon is the first byte that is not whitespace.
    have hreadable : isBlank (c :: r) = false := by
      rw [Bool.eq_false_iff]
      intro hblank
      rw [stripStart_eq_nil_iff.2 hblank, Bool.and_eq_true] at hfirst
      exact absurd hfirst.2 (by decide)
    rw [← List.cons_append, leading_append_padding hreadable]
    exact .inl rfl
  · exact .inl rfl

/-- Padding may be part of the last tight colon, but it does not make one. -/
theorem length_tightColonsFrom_padding (skip offset : Nat) (s : Bytes) {w : Bytes}
    (hw : IsPadding w) :
    (tightColonsFrom skip offset (s ++ w)).length = (tightColonsFrom skip offset s).length := by
  fun_induction tightColonsFrom skip offset s with
  | case1 skip offset =>
      rw [List.nil_append, tightColonsFrom_of_isPadding skip offset hw]
  | case2 skip offset c r ih =>
      rw [List.cons_append, tightColonsFrom]
      exact ih
  | case3 offset c r hzero ih =>
      have hzero' : tightLength (offset == 0) (c :: (r ++ w)) = 0 := by
        rcases tightLength_padding (offset == 0) c r hw with hsame | ⟨hlong, -⟩
        · rw [hsame, hzero]
        · rw [hzero] at hlong
          cases hlong
      rw [List.cons_append, tightColonsFrom, hzero']
      exact ih
  | case4 offset c r n hfound ih =>
      rw [List.cons_append, tightColonsFrom, List.length_cons]
      rcases tightLength_padding (offset == 0) c r hw with hsame | ⟨hlong, hlong'⟩
      · rw [hsame, hfound, List.length_cons, ih]
      · rw [hfound] at hlong
        cases hlong
        rw [hlong', List.length_cons, tightColonsFrom_of_length_le (Nat.le_refl _),
          tightColonsFrom_of_length_le (Nat.le_refl _)]

theorem length_tightColons_padding :
    IgnoresPadding fun s => (tightColons s).length :=
  fun s _ hw => length_tightColonsFrom_padding 0 0 s hw

end Check

end DocLint
