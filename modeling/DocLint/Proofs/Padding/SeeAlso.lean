import DocLint.Proofs.Docstring.ReferencePieces
import DocLint.Proofs.Padding.Text

/-!
# Padded reference lines

A line of references is taken apart alike with padding behind it: no name, role or mark contains
padding, and a description loses the whitespace at its end.

* `Reference.ignoresPadding_ofText?`, `References.more_padding`: the references are the same ones,
  and the padding is part of what is left behind them.
* `SeeAlsoLine.ignoresPadding_ofText?`: so is what they come to as a line.
* `SeeAlsoRole.ignoresPadding_ofLine`: the line plays the same role, flaws included.
-/

namespace DocLint

open Bytes

theorem isWord_of_isPadding {c : UInt8} (h : isPadding c = true) : isWord c = false := by
  rcases isPadding_cases h with rfl | rfl
  · decide
  · decide

theorem isReferenceByte_of_isPadding {c : UInt8} (h : isPadding c = true) :
    isReferenceByte c = false := by
  rcases isPadding_cases h with rfl | rfl
  · decide
  · decide

namespace Reference

theorem ignoresPadding_shortenedLength : IgnoresPadding shortenedLength := by
  intro s w hw
  cases s with
  | nil =>
      cases w with
      | nil => rfl
      | cons c r =>
          have hc : c ≠ byte '~' := hw.head_ne (by decide)
          exact if_neg fun h => hc h.1
  | cons c r =>
      have hword : (r ++ w).takeWhile isWord = r.takeWhile isWord :=
        ignoresPadding_takeWhile (fun _ => isWord_of_isPadding) r w hw
      have hdot : (((r ++ w).drop (r.takeWhile isWord).length).head? = some (byte '.')) =
          ((r.drop (r.takeWhile isWord).length).head? = some (byte '.')) :=
        (ignoresPadding_head? (by decide)).drop _ r w hw
      simp only [List.cons_append, shortenedLength, hword, hdot]

/-- The name in backticks ends in front of the padding. -/
theorem ignoresPadding_quoted? : IgnoresPadding quoted? := by
  intro s w hw
  cases s with
  | nil =>
      cases w with
      | nil => rfl
      | cons c r =>
          have hc : c ≠ backtick := hw.head_ne (by decide)
          exact if_neg fun h => hc h.1
  | cons c r =>
      have hlead := ignoresPadding_shortenedLength r w hw
      have hname : ((r ++ w).drop (shortenedLength r)).takeWhile isReferenceByte =
          (r.drop (shortenedLength r)).takeWhile isReferenceByte :=
        (ignoresPadding_takeWhile fun _ => isReferenceByte_of_isPadding).drop _ r w hw
      simp only [List.cons_append, quoted?, hlead, hname]
      generalize shortenedLength r +
        ((r.drop (shortenedLength r)).takeWhile isReferenceByte).length = n
      have hclosing : (((r ++ w).drop n).head? = some backtick) =
          ((r.drop n).head? = some backtick) :=
        (ignoresPadding_head? (by decide)).drop _ r w hw
      simp only [hclosing]
      split
      next h =>
        have hlt := lt_length_of_head?_drop h.2.2
        rw [List.take_append_of_le_length (Nat.le_of_lt hlt)]
      · rfl

theorem ignoresPadding_rolePart : IgnoresPadding rolePart := by
  intro s w hw
  have hdomain : startsWith (s ++ w) (ascii "py:") = startsWith s (ascii "py:") :=
    ignoresPadding_startsWith (by decide) s w hw
  unfold rolePart
  simp only [hdomain]
  have hle : (if startsWith s (ascii "py:") then 3 else 0) ≤ s.length := by
    split
    next h => exact Check.length_le_of_startsWith h
    · exact Nat.zero_le _
  generalize (if startsWith s (ascii "py:") then 3 else 0) = n at hle
  have hword : ((s ++ w).drop n).takeWhile isWord = (s.drop n).takeWhile isWord :=
    (ignoresPadding_takeWhile fun _ => isWord_of_isPadding).drop n s w hw
  have hlength := (List.takeWhile_prefix isWord (l := s.drop n)).length_le
  rw [List.length_drop] at hlength
  rw [hword, List.take_append_of_le_length (by omega)]

theorem ignoresPadding_hasRole : IgnoresPadding hasRole := by
  intro s w hw
  have hdomain : startsWith (s ++ w) (ascii "py:") = startsWith s (ascii "py:") :=
    ignoresPadding_startsWith (by decide) s w hw
  unfold hasRole
  simp only [hdomain]
  exact (ignoresPadding_any_head? fun _ => isWord_of_isPadding).drop _ s w hw

/-- The reference that a text begins with ends in front of the padding. -/
theorem ignoresPadding_ofText? : IgnoresPadding Reference.ofText? := by
  intro s w hw
  cases s with
  | nil =>
      cases w with
      | nil => rfl
      | cons c r =>
          have hc : c ≠ byte ':' := hw.head_ne (by decide)
          have hc' : c ≠ backtick := hw.head_ne (by decide)
          have hname : (c :: r).takeWhile isReferenceByte = [] :=
            List.takeWhile_cons_of_neg
              (by simp [isReferenceByte_of_isPadding (hw c List.mem_cons_self)])
          simp only [List.nil_append, ofText?, if_neg hc, if_neg hc', hname, if_true]
  | cons c r =>
      have hrole := ignoresPadding_rolePart r w hw
      have hhasRole := ignoresPadding_hasRole r w hw
      have hcolon : (((r ++ w).drop (rolePart r).length).head? == some (byte ':')) =
          ((r.drop (rolePart r).length).head? == some (byte ':')) := by
        rw [Bool.eq_iff_iff, beq_iff_eq, beq_iff_eq]
        exact ((ignoresPadding_head? (by decide)).drop _ r w hw).to_iff
      have hname : (c :: (r ++ w)).takeWhile isReferenceByte = (c :: r).takeWhile isReferenceByte :=
        ignoresPadding_takeWhile (fun _ => isReferenceByte_of_isPadding) (c :: r) w hw
      have hquoted : quoted? (c :: (r ++ w)) = quoted? (c :: r) :=
        ignoresPadding_quoted? (c :: r) w hw
      have hbehind : quoted? ((r ++ w).drop ((rolePart r).length + 1)) =
          quoted? (r.drop ((rolePart r).length + 1)) :=
        ignoresPadding_quoted?.drop _ r w hw
      simp only [List.cons_append, ofText?, hrole, hhasRole, hcolon, hname, hquoted, hbehind]

/-- The reference behind the whitespace in front. -/
theorem ignoresPadding_ofText?_stripStart :
    IgnoresPadding fun s => Reference.ofText? (stripStart s) := by
  intro s w hw
  show Reference.ofText? (stripStart (s ++ w)) = Reference.ofText? (stripStart s)
  cases hs : isBlank s with
  | true => rw [stripStart_padding_of_blank hw hs, stripStart_eq_nil_iff.2 hs]
  | false =>
      rw [stripStart_append_padding hs]
      exact ignoresPadding_ofText? _ w hw

/-- Where a reference is found, there is more than whitespace. -/
theorem isBlank_of_ofText?_stripStart {s : Bytes} {reference : Reference}
    (h : Reference.ofText? (stripStart s) = some reference) : isBlank s = false := by
  rw [Bool.eq_false_iff]
  intro hblank
  rw [stripStart_eq_nil_iff.2 hblank] at h
  cases h

end Reference

namespace References

/-- The references, with padding behind the last one. -/
def pad (w : Bytes) (line : References) : References := { line with rest := line.rest ++ w }

/-- A reference behind whitespace is followed by what is left, and the padding. -/
theorem drop_stripStart_padding {s w : Bytes} {reference : Reference}
    (h : Reference.ofText? (stripStart s) = some reference) :
    (stripStart (s ++ w)).drop reference.length = (stripStart s).drop reference.length ++ w := by
  rw [stripStart_append_padding (Reference.isBlank_of_ofText?_stripStart h),
    List.drop_append_of_le_length (Reference.ofText?_fits h).length]

theorem more_padding (offset : Nat) (s : Bytes) {w : Bytes} (hw : IsPadding w) :
    more offset (s ++ w) = (more offset s).pad w := by
  fun_induction more offset s with
  | case1 offset =>
      cases w with
      | nil => rw [List.nil_append, more, pad]; rfl
      | cons c r =>
          have hc : c ≠ byte ',' := hw.head_ne (by decide)
          rw [List.nil_append, more, if_neg fun h => hc h.1, pad]
          rfl
  | case2 offset c r hcomma hnone =>
      have hnone' : Reference.ofText? (stripStart (r ++ w)) = none :=
        (Reference.ignoresPadding_ofText?_stripStart r w hw).trans hnone
      rw [List.cons_append, more, hnone', pad]
      split
      · rfl
      · rfl
  | case3 offset c r hcomma reference hsome first behind ih =>
      have hsome' : Reference.ofText? (stripStart (r ++ w)) = some reference :=
        (Reference.ignoresPadding_ofText?_stripStart r w hw).trans hsome
      have hleading : leading (r ++ w) = leading r :=
        leading_append_padding (Reference.isBlank_of_ofText?_stripStart hsome) w
      rw [List.cons_append, more, if_pos (by rwa [hleading]), hsome', hleading]
      dsimp only
      rw [drop_stripStart_padding hsome, ih]
      rfl
  | case4 offset c r hno =>
      rw [List.cons_append, more]
      split
      next hcomma =>
        -- The whitespace behind the comma is padding, and nothing follows it.
        have hblank : isBlank r = true := by
          rw [← Bool.not_eq_false]
          intro hreadable
          rw [leading_append_padding hreadable] at hcomma
          exact hno hcomma
        have hnone : Reference.ofText? (stripStart (r ++ w)) = none := by
          rw [stripStart_padding_of_blank hw hblank]
          rfl
        rw [hnone, pad]
        rfl
      · rw [pad]
        rfl

theorem ofLine?_padding (s : Bytes) {w : Bytes} (hw : IsPadding w) :
    ofLine? (s ++ w) = (ofLine? s).map (pad w) := by
  have hfirst : Reference.ofText? (stripStart (s ++ w)) = Reference.ofText? (stripStart s) :=
    Reference.ignoresPadding_ofText?_stripStart s w hw
  unfold ofLine?
  rw [hfirst]
  cases hsome : Reference.ofText? (stripStart s) with
  | none => rfl
  | some reference =>
      have hleading : leading (s ++ w) = leading s :=
        leading_append_padding (Reference.isBlank_of_ofText?_stripStart hsome) w
      simp only [Option.map_some, hleading, drop_stripStart_padding hsome, more_padding _ _ hw]
      rfl

end References

namespace SeeAlsoLine

theorem ignoresPadding_tail? (offset : Nat) : IgnoresPadding (tail? offset) := by
  intro s w hw
  cases hs : isBlank s with
  | true =>
      unfold tail?
      rw [stripStart_padding_of_blank hw hs, stripStart_eq_nil_iff.2 hs]
  | false =>
      unfold tail?
      rw [stripStart_append_padding hs, leading_append_padding hs]
      cases hstart : stripStart s with
      | nil =>
          rw [stripStart_eq_nil_iff.1 hstart] at hs
          cases hs
      | cons c r =>
          simp only [List.cons_append]
          cases hr : isBlank r with
          | true =>
              have hr' : isBlank (r ++ w) = true := (ignoresPadding_isBlank r w hw).trans hr
              rw [if_pos (leading_eq_length_iff.2 hr), if_pos (leading_eq_length_iff.2 hr')]
          | false =>
              have hr' : isBlank (r ++ w) = false := (ignoresPadding_isBlank r w hw).trans hr
              rw [if_neg fun hall => Bool.eq_false_iff.1 hr (leading_eq_length_iff.1 hall),
                if_neg fun hall => Bool.eq_false_iff.1 hr' (leading_eq_length_iff.1 hall),
                leading_append_padding hr]

theorem finish_padding (found : List (Nat × Reference)) (offset : Nat) :
    IgnoresPadding (ofText?.finish found offset) := by
  intro s w hw
  rw [ofText?.finish, ignoresPadding_tail? offset s w hw, ofText?.finish]

/-- A line of references is taken apart alike with padding behind it. -/
theorem ignoresPadding_ofText? : IgnoresPadding SeeAlsoLine.ofText? := by
  intro s w hw
  unfold ofText?
  rw [References.ofLine?_padding s hw]
  cases hline : References.ofLine? s with
  | none => rfl
  | some line =>
      simp only [Option.map_some, Option.bind_eq_bind, Option.bind_some, References.pad]
      cases hrest : line.rest with
      | nil =>
          rw [List.nil_append]
          cases w with
          | nil => rfl
          | cons c r =>
              have hc : ¬ (c = byte ',' ∨ c = byte '.') :=
                not_or.2 ⟨hw.head_ne (by decide), hw.head_ne (by decide)⟩
              simp only [if_neg hc]
              exact finish_padding line.found line.offset [] (c :: r) hw
      | cons c r =>
          simp only [List.cons_append]
          split
          · rw [ignoresPadding_tail? _ r w hw]
          · exact finish_padding line.found line.offset (c :: r) w hw

end SeeAlsoLine

/-! ### Roles -/

namespace SeeAlsoRole

/-- Behind the indentation of the docstring there is still something in front of the padding. -/
theorem drop_indent_padding {s : Bytes} (hs : isBlank s = false) (w : Bytes) (indent : Nat) :
    (s ++ w).drop (min indent (leading s)) = s.drop (min indent (leading s)) ++ w ∧
      isBlank (s.drop (min indent (leading s))) = false := by
  have hle : min indent (leading s) ≤ leading s := Nat.min_le_right _ _
  refine ⟨List.drop_append_of_le_length (Nat.le_trans hle (leading_le s)), ?_⟩
  rw [Bool.eq_false_iff]
  intro hblank
  have hrest : isBlank (s.drop (leading s)) = true := by
    rw [← Nat.add_sub_of_le hle, ← List.drop_drop]
    exact List.all_eq_true.2 fun c hc => List.all_eq_true.1 hblank c (List.mem_of_mem_drop hc)
  rw [drop_leading, isBlank_stripStart, hs] at hrest
  cases hrest

theorem ofReferences_padding (p : Position) {s w : Bytes} (hs : isBlank s = false)
    (hw : IsPadding w) (indent : Nat) {found : SeeAlsoLine}
    (h : found.Within (s.drop (min indent (leading s)))) :
    ofReferences ⟨p, s ++ w⟩ indent found = ofReferences ⟨p, s⟩ indent found := by
  have hleading : (DocLine.mk p (s ++ w)).leading = leading s := leading_append_padding hs w
  have htext := (drop_indent_padding hs w indent).1
  unfold ofReferences
  rw [hleading, show (DocLine.mk p s).leading = leading s from rfl]
  simp only [htext]
  generalize s.drop (min indent (leading s)) = text at h
  have hdescription (offset : Nat) :
      stripEnd ((text ++ w).drop offset) = stripEnd (text.drop offset) :=
    ignoresPadding_stripEnd.drop offset text w hw
  have hmark : ∀ offset ∈ found.stray,
      ((text ++ w).drop offset).headD 0 = (text.drop offset).headD 0 := by
    intro offset hoffset
    obtain ⟨c, hle, behind, hbehind⟩ : ∃ c, OccursAt [c] offset text :=
      (h.stray offset hoffset).elim (fun hcomma => ⟨_, hcomma⟩) fun hperiod => ⟨_, hperiod⟩
    rw [List.drop_append_of_le_length hle, ← hbehind]
    rfl
  simp only [hdescription, ignoresPadding_stripEnd text w hw]
  cases hstray : found.stray with
  | none => rfl
  | some offset =>
      cases found.description with
      | none =>
          dsimp only
          rw [hmark offset hstray]
          rfl
      | some description => rfl

/-- The line plays the same role with padding behind it. -/
theorem ignoresPadding_ofLine (indent : Nat) (p : Position) :
    IgnoresPadding fun s => ofLine indent ⟨p, s⟩ := by
  intro s w hw
  show ofLine indent ⟨p, s ++ w⟩ = ofLine indent ⟨p, s⟩
  cases hs : isBlank s with
  | true =>
      have hs' : (DocLine.mk p (s ++ w)).isBlank = true := (ignoresPadding_isBlank s w hw).trans hs
      rw [ofLine, ofLine, if_pos hs', if_pos (show (DocLine.mk p s).isBlank = true from hs)]
  | false =>
      obtain ⟨htext, hreadable⟩ := drop_indent_padding hs w indent
      have hleading : (DocLine.mk p (s ++ w)).leading = leading s := leading_append_padding hs w
      have hblank : (DocLine.mk p (s ++ w)).isBlank = (DocLine.mk p s).isBlank :=
        ignoresPadding_isBlank s w hw
      have hreferences (found : SeeAlsoLine)
          (hfound : SeeAlsoLine.ofText? (s.drop (min indent (leading s))) = some found) :
          ofReferences ⟨p, s ++ w⟩ indent found = ofReferences ⟨p, s⟩ indent found :=
        ofReferences_padding p hs hw indent (SeeAlsoLine.ofText?_within hfound)
      unfold ofLine
      rw [hleading, hblank, show (DocLine.mk p s).leading = leading s from rfl]
      simp only [htext, ignoresPadding_strip s w hw]
      generalize s.drop (min indent (leading s)) = text at hreadable hreferences
      have hfirst : (text ++ w).head? = text.head? := by
        cases text with
        | nil => cases hreadable
        | cons c r => rfl
      rw [SeeAlsoLine.ignoresPadding_ofText? text w hw, hfirst]
      cases hfound : SeeAlsoLine.ofText? text with
      | none => rfl
      | some found =>
          simp only [hreferences found hfound]
          rfl

end SeeAlsoRole

end DocLint
