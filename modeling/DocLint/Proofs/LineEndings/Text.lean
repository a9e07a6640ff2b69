import DocLint.Proofs.Source.Simulation
import DocLint.Source.Lexeme

/-!
# Carriage returns in front of newlines

A text whose lines end with a carriage return and a newline, in place of the newline alone.  What
never looks at line ends finds the same in both texts.

* `after_withReturns`: both texts lead to the same position.
* `gapLength_withReturns`, `commentLength_append`: blanks and comments take the return with them, and
  stop in front of the newline.
* `takeWhile_withReturns`, `isPrefixOf_withReturns`: names and spellings are unchanged.
-/

namespace DocLint

namespace Bytes

/-- The text with a carriage return in front of every newline. -/
def withReturns (s : Bytes) : Bytes :=
  s.flatMap fun c => if c = newline then [carriageReturn, newline] else [c]

@[simp] theorem withReturns_nil : withReturns [] = [] := rfl

@[simp] theorem withReturns_newline (r : Bytes) :
    withReturns (newline :: r) = carriageReturn :: newline :: withReturns r := rfl

theorem withReturns_cons {c : UInt8} (h : c ≠ newline) (r : Bytes) :
    withReturns (c :: r) = c :: withReturns r := by
  rw [withReturns, List.flatMap_cons, if_neg h]
  rfl

theorem withReturns_append (s t : Bytes) :
    withReturns (s ++ t) = withReturns s ++ withReturns t := List.flatMap_append

theorem withReturns_eq_self {s : Bytes} (h : newline ∉ s) : withReturns s = s := by
  induction s with
  | nil => rfl
  | cons c r ih =>
      rw [List.mem_cons, not_or] at h
      rw [withReturns_cons (Ne.symm h.1), ih h.2]

/-- Bytes that do not belong to line ends are the same as before. -/
theorem head?_withReturns {p : UInt8 → Bool} (hnewline : p newline = false)
    (hreturn : p carriageReturn = false) (s : Bytes) :
    (withReturns s).head?.any p = s.head?.any p := by
  cases s with
  | nil => rfl
  | cons c r =>
      by_cases h : c = newline
      · subst h
        simp [hnewline, hreturn]
      · rw [withReturns_cons h]
        rfl

theorem takeWhile_withReturns {p : UInt8 → Bool} (hnewline : p newline = false)
    (hreturn : p carriageReturn = false) (s : Bytes) :
    (withReturns s).takeWhile p = s.takeWhile p := by
  induction s with
  | nil => rfl
  | cons c r ih =>
      by_cases h : c = newline
      · subst h
        simp [hnewline, hreturn]
      · rw [withReturns_cons h, List.takeWhile_cons, List.takeWhile_cons, ih]

theorem dropWhile_withReturns {p : UInt8 → Bool} (hnewline : p newline = false)
    (hreturn : p carriageReturn = false) (s : Bytes) :
    (withReturns s).dropWhile p = withReturns (s.dropWhile p) := by
  induction s with
  | nil => rfl
  | cons c r ih =>
      by_cases h : c = newline
      · subst h
        simp [hnewline, hreturn]
      · rw [withReturns_cons h, List.dropWhile_cons, List.dropWhile_cons, ih]
        split
        · rfl
        · rw [withReturns_cons h]

theorem newline_not_mem_takeWhile {p : UInt8 → Bool} (hnewline : p newline = false) (s : Bytes) :
    newline ∉ s.takeWhile p := by
  intro h
  rw [List.all_eq_true.1 List.all_takeWhile _ h] at hnewline
  cases hnewline

/-- A spelling without line ends is found where it was before. -/
theorem isPrefixOf_withReturns {t : Bytes} (hnewline : newline ∉ t) (hreturn : carriageReturn ∉ t)
    (s : Bytes) : t.isPrefixOf (withReturns s) = t.isPrefixOf s := by
  induction t generalizing s with
  | nil => simp
  | cons d t ih =>
      rw [List.mem_cons, not_or] at hnewline hreturn
      cases s with
      | nil => rfl
      | cons c r =>
          by_cases h : c = newline
          · subst h
            rw [withReturns_newline, List.isPrefixOf_cons_cons, List.isPrefixOf_cons_cons,
              beq_false_of_ne (Ne.symm hreturn.1), beq_false_of_ne (Ne.symm hnewline.1)]
            rfl
          · rw [withReturns_cons h, List.isPrefixOf_cons_cons, List.isPrefixOf_cons_cons,
              ih hnewline.2 hreturn.2]

end Bytes

open Bytes

/-- Both texts lead to the same position. -/
theorem Position.after_withReturns (p : Position) (s : Bytes) :
    p.after (withReturns s) = p.after s := by
  induction s generalizing p with
  | nil => rfl
  | cons c r ih =>
      by_cases h : c = newline
      · subst h
        rw [withReturns_newline, after_cons, after_cons, ih, after_cons]
        rfl
      · rw [withReturns_cons h, after_cons, after_cons, ih]

/-- A line is blank behind the one text if it is behind the other. -/
theorem ByteCursor.blankAfter_withReturns (blankLine : Bool) (s : Bytes) :
    blankAfter blankLine (withReturns s) = blankAfter blankLine s := by
  induction s generalizing blankLine with
  | nil => rfl
  | cons c r ih =>
      by_cases h : c = newline
      · subst h
        exact ih true
      · rw [withReturns_cons h]
        exact ih _

/-! ### Blanks and comments -/

theorem gapLength_of_blank {c : UInt8} (h : isInlineBlank c = true) (r : Bytes) :
    gapLength (c :: r) = gapLength r + 1 := by
  rw [gapLength.eq_def]
  exact if_pos h

theorem gapLength_of_ne {c : UInt8} (hblank : ¬ isInlineBlank c = true) (h : ¬ c = backslash)
    (r : Bytes) : gapLength (c :: r) = 0 := by
  rw [gapLength.eq_def]
  exact (if_neg hblank).trans (if_neg h)

/-- A backslash that escapes no line end is no blank. -/
theorem gapLength_backslash {d : UInt8} (hnewline : ¬ d = newline) (hreturn : ¬ d = carriageReturn)
    (r : Bytes) : gapLength (backslash :: d :: r) = 0 := by
  rw [gapLength.eq_def]
  exact (if_neg hnewline).trans (if_neg hreturn)

/-- An escaped line end is as long as its bytes. -/
theorem gapLength_escaped (r : Bytes) :
    gapLength (backslash :: newline :: r) = gapLength r + 2 ∧
      gapLength (backslash :: carriageReturn :: newline :: r) = gapLength r + 3 := by
  constructor
  · rw [gapLength.eq_def]
    rfl
  · rw [gapLength.eq_def]
    rfl

/-- The return in front of the next newline counts as a blank. -/
theorem gapLength_withReturns : ∀ {s : Bytes}, carriageReturn ∉ s →
    gapLength (withReturns s) = (withReturns (s.take (gapLength s))).length +
      if (s.drop (gapLength s)).head? = some newline then 1 else 0
  | [], _ => rfl
  | c :: r, plain => by
    rw [List.mem_cons, not_or] at plain
    by_cases hblank : isInlineBlank c = true
    · have hne : c ≠ newline := by
        rintro rfl
        exact absurd hblank (by decide)
      rw [gapLength_of_blank hblank, withReturns_cons hne, List.take_succ_cons,
        List.drop_succ_cons, withReturns_cons hne, gapLength_of_blank hblank,
        gapLength_withReturns plain.2, List.length_cons]
      omega
    · by_cases hbackslash : c = backslash
      · subst hbackslash
        have hne : backslash ≠ newline := by decide
        match r with
        | [] => rfl
        | d :: q =>
          rw [List.mem_cons, not_or] at plain
          by_cases hnewline : d = newline
          · subst hnewline
            rw [(gapLength_escaped q).1, withReturns_cons hne, withReturns_newline,
              (gapLength_escaped _).2, gapLength_withReturns plain.2.2, List.take_succ_cons,
              List.take_succ_cons, List.drop_succ_cons, List.drop_succ_cons, withReturns_cons hne,
              withReturns_newline]
            simp only [List.length_cons]
            omega
          · have hreturn : ¬ d = carriageReturn := Ne.symm plain.2.1
            rw [gapLength_backslash hnewline hreturn, withReturns_cons hne,
              withReturns_cons hnewline, gapLength_backslash hnewline hreturn]
            simp [hne]
      · rw [gapLength_of_ne hblank hbackslash, List.take_zero, List.drop_zero, withReturns_nil,
          List.head?_cons]
        by_cases hne : c = newline
        · subst hne
          rw [withReturns_newline, gapLength_of_blank (by decide),
            gapLength_of_ne hblank hbackslash]
          rfl
        · rw [withReturns_cons hne, gapLength_of_ne hblank hbackslash,
            if_neg (by simpa using hne)]
          rfl

/-- A text holds a newline, or it does not. -/
theorem exists_firstLine (s : Bytes) :
    newline ∉ s ∨ ∃ u r, s = u ++ newline :: r ∧ newline ∉ u := by
  by_cases h : newline ∈ s
  · obtain ⟨u, r, hs, hu⟩ := List.eq_append_cons_of_mem h
    exact .inr ⟨u, r, hs, hu⟩
  · exact .inl h

theorem commentLength_eq_length {s : Bytes} (h : newline ∉ s) : commentLength s = s.length := by
  have hall : s.takeWhile (· ≠ newline) = s := by
    rw [← List.append_nil s, List.takeWhile_append_of_pos, List.takeWhile_nil]
    intro c hc
    simpa using fun heq : c = newline => h (heq ▸ hc)
  rw [commentLength, hall]

/-- A comment ends in front of the newline. -/
theorem commentLength_append {u : Bytes} (h : newline ∉ u) (r : Bytes) :
    commentLength (u ++ newline :: r) = u.length := by
  rw [commentLength, List.takeWhile_append_of_pos, List.takeWhile_cons_of_neg (by simp),
    List.append_nil]
  intro c hc
  simpa using fun heq : c = newline => h (heq ▸ hc)

/-- A return at the end of a comment is left out. -/
theorem chomp_append_return (u : Bytes) : chomp (u ++ [carriageReturn]) = u := by
  rw [chomp, List.getLast?_concat, if_pos rfl, List.dropLast_concat]

theorem chomp_eq_self {u : Bytes} (h : carriageReturn ∉ u) : chomp u = u := by
  rw [chomp, if_neg]
  intro hlast
  exact h (List.mem_of_getLast? hlast)

end DocLint
