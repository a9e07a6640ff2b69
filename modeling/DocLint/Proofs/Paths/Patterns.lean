import DocLint.Proofs.Paths.Exclusion

/-!
# The texts of a pattern

A pattern denotes a language, read off the pattern from left to right.  Matching tries the ways to
go on behind each wildcard, and finds one exactly if the text is in the language.

* `Denotes`: the language of a pattern, one rule for each way in which a pattern begins.
* `accepts_name`, `accepts_path`, `accepts_directories`: what a wildcard takes up of a text.
* `isMatch_iff_denotes`: a text matches a pattern if and only if it is in its language.
-/

namespace DocLint

namespace Glob

open Bytes

/-- The text is in the language of the pattern.  Two stars are one wildcard, and with a slash behind
them they may stand for nothing. -/
inductive Denotes : Bytes → Bytes → Prop
  | nil : Denotes [] []
  | nowhere {rest text : Bytes} (behind : Denotes rest text) :
      Denotes (byte '*' :: byte '*' :: slash :: rest) text
  | inside {rest text : Bytes} (front : Bytes) (behind : Denotes rest text) :
      Denotes (byte '*' :: byte '*' :: slash :: rest) (front ++ slash :: text)
  | path {rest text : Bytes} (no_slash : rest.head? ≠ some slash) (front : Bytes)
      (behind : Denotes rest text) : Denotes (byte '*' :: byte '*' :: rest) (front ++ text)
  | name {rest text : Bytes} (no_star : rest.head? ≠ some (byte '*')) {front : Bytes}
      (flat : slash ∉ front) (behind : Denotes rest text) :
      Denotes (byte '*' :: rest) (front ++ text)
  | one {rest text : Bytes} {c : UInt8} (flat : c ≠ slash) (behind : Denotes rest text) :
      Denotes (byte '?' :: rest) (c :: text)
  | literal {rest text : Bytes} {c : UInt8} (no_star : c ≠ byte '*') (no_mark : c ≠ byte '?')
      (behind : Denotes rest text) : Denotes (c :: rest) (c :: text)

/-! ### Wildcards -/

/-- The suffixes of a text that are reached without passing a slash. -/
theorem mem_nameSuffixes_iff {text tail : Bytes} :
    tail ∈ nameSuffixes text ↔ ∃ front, text = front ++ tail ∧ slash ∉ front := by
  induction text with
  | nil =>
      rw [nameSuffixes, List.mem_singleton]
      constructor
      · rintro rfl
        exact ⟨[], rfl, List.not_mem_nil⟩
      · rintro ⟨front, hfront, -⟩
        exact (List.append_eq_nil_iff.1 hfront.symm).2
  | cons c r ih =>
      rw [nameSuffixes, List.mem_cons]
      constructor
      · rintro (rfl | htail)
        · exact ⟨[], rfl, List.not_mem_nil⟩
        · split at htail
          · cases htail
          next hc =>
            obtain ⟨front, rfl, hflat⟩ := ih.1 htail
            exact ⟨c :: front, rfl, List.not_mem_cons_of_ne_of_not_mem (Ne.symm hc) hflat⟩
      · rintro ⟨front, hfront, hflat⟩
        cases front with
        | nil => exact .inl hfront.symm
        | cons d front =>
            obtain ⟨rfl, hr⟩ := List.cons.inj hfront
            rw [if_neg (List.ne_of_not_mem_cons hflat).symm]
            exact .inr (ih.2 ⟨front, hr, List.not_mem_of_not_mem_cons hflat⟩)

section Wildcards

variable {rest : List GlobPiece} {text : Bytes}

theorem accepts_name : accepts (.name :: rest) text = true ↔
    ∃ front tail, text = front ++ tail ∧ slash ∉ front ∧ accepts rest tail = true := by
  change (nameSuffixes text).any (fun r => accepts rest r) = true ↔ _
  simp only [List.any_eq_true, mem_nameSuffixes_iff]
  constructor
  · rintro ⟨tail, ⟨front, htext, hflat⟩, htail⟩
    exact ⟨front, tail, htext, hflat, htail⟩
  · rintro ⟨front, tail, htext, hflat, htail⟩
    exact ⟨tail, ⟨front, htext, hflat⟩, htail⟩

theorem accepts_path : accepts (.path :: rest) text = true ↔
    ∃ front tail, text = front ++ tail ∧ accepts rest tail = true := by
  change (suffixes text).any (fun r => accepts rest r) = true ↔ _
  simp only [List.any_eq_true, mem_suffixes]
  constructor
  · rintro ⟨tail, ⟨front, htext⟩, htail⟩
    exact ⟨front, tail, htext, htail⟩
  · rintro ⟨front, tail, htext, htail⟩
    exact ⟨tail, ⟨front, htext⟩, htail⟩

theorem accepts_directories : accepts (.directories :: rest) text = true ↔
    accepts rest text = true ∨
      ∃ front tail, text = front ++ slash :: tail ∧ accepts rest tail = true := by
  change (accepts rest text || (componentSuffixes text).any fun r => accepts rest r) = true ↔ _
  simp only [Bool.or_eq_true, List.any_eq_true, mem_componentSuffixes_iff]
  refine or_congr_right ⟨?_, ?_⟩
  · rintro ⟨tail, ⟨front, htext⟩, htail⟩
    exact ⟨front, tail, htext, htail⟩
  · rintro ⟨front, tail, htext, htail⟩
    exact ⟨tail, ⟨front, htext⟩, htail⟩

theorem accepts_one : accepts (.one :: rest) text = true ↔
    ∃ c tail, text = c :: tail ∧ c ≠ slash ∧ accepts rest tail = true := by
  cases text with
  | nil => exact ⟨nofun, nofun⟩
  | cons c tail =>
      change (c != slash && accepts rest tail) = true ↔ _
      rw [Bool.and_eq_true, bne_iff_ne]
      constructor
      · rintro ⟨hc, htail⟩
        exact ⟨c, tail, rfl, hc, htail⟩
      · rintro ⟨_, _, ⟨⟩, hc, htail⟩
        exact ⟨hc, htail⟩

theorem accepts_literal {c : UInt8} : accepts (.literal c :: rest) text = true ↔
    ∃ tail, text = c :: tail ∧ accepts rest tail = true := by
  cases text with
  | nil => exact ⟨nofun, nofun⟩
  | cons d tail =>
      change (c == d && accepts rest tail) = true ↔ _
      rw [Bool.and_eq_true, beq_iff_eq]
      constructor
      · rintro ⟨rfl, htail⟩
        exact ⟨tail, rfl, htail⟩
      · rintro ⟨_, ⟨⟩, htail⟩
        exact ⟨rfl, htail⟩

end Wildcards

/-! ### Reading a pattern -/

section Pieces

variable {rest : Bytes}

theorem pieces_directories :
    pieces (byte '*' :: byte '*' :: slash :: rest) = .directories :: pieces rest :=
  rfl

theorem pieces_path (h : rest.head? ≠ some slash) :
    pieces (byte '*' :: byte '*' :: rest) = .path :: pieces rest := by
  cases rest with
  | nil => rfl
  | cons e rest =>
      have he : e ≠ slash := fun he => h (by rw [he]; rfl)
      exact if_neg he

theorem pieces_name (h : rest.head? ≠ some (byte '*')) :
    pieces (byte '*' :: rest) = .name :: pieces rest := by
  cases rest with
  | nil => rfl
  | cons d rest =>
      have hd : d ≠ byte '*' := fun hd => h (by rw [hd]; rfl)
      rw [pieces.eq_def]
      exact (if_pos rfl).trans (if_neg hd)

theorem pieces_one : pieces (byte '?' :: rest) = .one :: pieces rest := by
  rw [pieces.eq_def]
  rfl

theorem pieces_literal {c : UInt8} (hstar : c ≠ byte '*') (hmark : c ≠ byte '?') :
    pieces (c :: rest) = .literal c :: pieces rest := by
  rw [pieces.eq_def]
  exact (if_neg hstar).trans (if_neg hmark)

end Pieces

/-! ### Matching -/

theorem isMatch_of_denotes {pattern text : Bytes} (h : Denotes pattern text) :
    isMatch pattern text = true := by
  unfold isMatch
  induction h with
  | nil => rfl
  | nowhere behind ih =>
      rw [pieces_directories, accepts_directories]
      exact .inl ih
  | inside front behind ih =>
      rw [pieces_directories, accepts_directories]
      exact .inr ⟨front, _, rfl, ih⟩
  | path no_slash front behind ih =>
      rw [pieces_path no_slash, accepts_path]
      exact ⟨front, _, rfl, ih⟩
  | name no_star flat behind ih =>
      rw [pieces_name no_star, accepts_name]
      exact ⟨_, _, rfl, flat, ih⟩
  | one flat behind ih =>
      rw [pieces_one, accepts_one]
      exact ⟨_, _, rfl, flat, ih⟩
  | literal no_star no_mark behind ih =>
      rw [pieces_literal no_star no_mark, accepts_literal]
      exact ⟨_, rfl, ih⟩

theorem denotes_of_isMatch {pattern text : Bytes} (h : isMatch pattern text = true) :
    Denotes pattern text := by
  unfold isMatch at h
  have hnil {text : Bytes} (h : accepts (pieces []) text = true) : Denotes [] text := by
    obtain rfl : text = [] := List.isEmpty_iff.1 h
    exact .nil
  have hend (c : UInt8) : ([] : Bytes).head? ≠ some c := by simp
  induction pattern using pieces.induct generalizing text with
  | case1 => exact hnil h
  | case2 =>
      rw [pieces_name (hend _), accepts_name] at h
      obtain ⟨front, tail, rfl, hflat, h⟩ := h
      exact .name (hend _) hflat (hnil h)
  | case3 =>
      rw [pieces_path (hend _), accepts_path] at h
      obtain ⟨front, tail, rfl, h⟩ := h
      exact .path (hend _) front (hnil h)
  | case4 rest ih =>
      rw [pieces_directories, accepts_directories] at h
      rcases h with h | ⟨front, tail, rfl, h⟩
      · exact .nowhere (ih h)
      · exact .inside front (ih h)
  | case5 e rest he ih =>
      have hslash : (e :: rest).head? ≠ some slash := fun hhead => he (Option.some.inj hhead)
      rw [pieces_path hslash, accepts_path] at h
      obtain ⟨front, tail, rfl, h⟩ := h
      exact .path hslash front (ih h)
  | case6 e rest he ih =>
      have hstar : (e :: rest).head? ≠ some (byte '*') := fun hhead => he (Option.some.inj hhead)
      rw [pieces_name hstar, accepts_name] at h
      obtain ⟨front, tail, rfl, hflat, h⟩ := h
      exact .name hstar hflat (ih h)
  | case7 rest _ ih =>
      rw [pieces_one, accepts_one] at h
      obtain ⟨c, tail, rfl, hflat, h⟩ := h
      exact .one hflat (ih h)
  | case8 c rest hstar hmark ih =>
      rw [pieces_literal hstar hmark, accepts_literal] at h
      obtain ⟨tail, rfl, h⟩ := h
      exact .literal hstar hmark (ih h)

/-- A text matches a pattern if and only if it is in its language. -/
theorem isMatch_iff_denotes (pattern text : Bytes) :
    isMatch pattern text = true ↔ Denotes pattern text :=
  ⟨denotes_of_isMatch, isMatch_of_denotes⟩

/-- Three stars are the wildcard of two and that of one. -/
example : isMatch (ascii "a***/?b") (ascii "a/x/cb") = true := by cbv

end Glob

end DocLint
