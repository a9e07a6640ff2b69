import DocLint.Text.Bytes
import Mathlib.Data.List.DropRight
import Mathlib.Data.List.TakeWhile

/-!
# The edges of a text

Leading and trailing whitespace, taken apart: what is stripped, what is left, and where it stands.
Spaces put in front of a text move its first byte and change nothing else.

* `not_mem_of_class`: a byte of a class is none of the bytes outside of it.
* `stripEnd_eq_append`, `exists_eq_strip_append`: the stripped text with the whitespace in front of it,
  and with the whitespace behind it.
* `head?_strip`, `getLast?_strip`: the first and the last byte of the stripped text.
* `isSpace_head?_strip`, `isSpace_getLast?_strip`, `strip_strip`: neither of them is whitespace.
* `takeWhile_stripStart_of_word`, `length_takeWhile_stripStart_lt`: the first word, in a text of one
  word and in a text of several words.
* `leading_spaces_append`, `strip_spaces_append`: spaces in front are leading whitespace.
* `offsetOf?_spaces_append`: a text that begins with no space is found behind them.
-/

namespace DocLint

namespace Bytes

/-! ### Classes of bytes -/

/-- A byte of a class is none of the bytes outside of it. -/
theorem not_mem_of_class {p : UInt8 → Bool} {outside : List UInt8}
    (houtside : outside.any p = false) {c : UInt8} (hc : p c = true) : c ∉ outside := by
  intro hmem
  have hany : outside.any p = true := List.any_eq_true.2 ⟨c, hmem, hc⟩
  rw [houtside] at hany
  exact Bool.false_ne_true hany

theorem isAlpha_of_isLower_lowerByte {c : UInt8} (h : isLower (lowerByte c) = true) :
    isAlpha c = true := by
  rw [isAlpha, Bool.or_eq_true]
  by_cases hupper : isUpper c = true
  · exact .inl hupper
  · rw [lowerByte, if_neg hupper] at h
    exact .inr h

/-! ### Leading and trailing whitespace -/

/-- Nothing is left of a text behind its leading whitespace exactly when it is blank. -/
theorem stripStart_eq_nil_iff {s : Bytes} : stripStart s = [] ↔ isBlank s = true := by
  rw [stripStart, List.dropWhile_eq_nil_iff, isBlank, List.all_eq_true]

theorem stripEnd_eq_nil_iff {s : Bytes} : stripEnd s = [] ↔ isBlank s = true := by
  rw [stripEnd, List.reverse_eq_nil_iff, List.dropWhile_eq_nil_iff, isBlank, List.all_eq_true]
  simp only [List.mem_reverse]

/-- Leading whitespace and the rest make up the text. -/
theorem takeWhile_append_stripStart (s : Bytes) : s.takeWhile isSpace ++ stripStart s = s :=
  List.takeWhile_append_dropWhile

@[simp] theorem isBlank_stripStart (s : Bytes) : isBlank (stripStart s) = isBlank s := by
  conv => rhs; rw [← takeWhile_append_stripStart s, isBlank, List.all_append, List.all_takeWhile]
  rfl

/-- A text strips to nothing exactly when it is blank. -/
theorem strip_eq_nil_iff {s : Bytes} : strip s = [] ↔ isBlank s = true := by
  rw [strip, stripEnd_eq_nil_iff, isBlank_stripStart]

theorem isBlank_eq_false_iff {s : Bytes} : isBlank s = false ↔ strip s ≠ [] := by
  rw [Ne, strip_eq_nil_iff, Bool.not_eq_true]

theorem drop_leading (s : Bytes) : s.drop (leading s) = stripStart s :=
  calc s.drop (leading s)
      = (s.takeWhile isSpace ++ stripStart s).drop (s.takeWhile isSpace).length := by
        rw [takeWhile_append_stripStart, leading]
    _ = stripStart s := List.drop_left

theorem leading_le (s : Bytes) : leading s ≤ s.length := (List.takeWhile_prefix _).length_le

/-- The first bytes of a class are the whole text exactly when all bytes are of the class. -/
theorem length_takeWhile_eq_iff {p : UInt8 → Bool} {s : Bytes} :
    (s.takeWhile p).length = s.length ↔ ∀ c ∈ s, p c = true := by
  rw [← List.takeWhile_eq_self_iff]
  exact ⟨(List.takeWhile_prefix p).eq_of_length, congrArg List.length⟩

theorem leading_eq_length_iff {s : Bytes} : leading s = s.length ↔ isBlank s = true := by
  rw [leading, length_takeWhile_eq_iff, isBlank, List.all_eq_true]

/-- A text without whitespace at its ends has none at its beginning. -/
theorem stripStart_eq_self {s : Bytes} (h : strip s = s) : stripStart s = s := by
  have hstart : (stripStart s).length ≤ s.length := (List.dropWhile_suffix _).length_le
  have hend : (strip s).length ≤ (stripStart s).length := by
    have hreverse : ((stripStart s).reverse.dropWhile isSpace).length ≤
        (stripStart s).reverse.length := (List.dropWhile_suffix _).length_le
    rwa [List.length_reverse, ← List.length_reverse, ← stripEnd] at hreverse
  rw [h] at hend
  exact (List.dropWhile_suffix _).eq_of_length (Nat.le_antisymm hstart hend)

theorem stripEnd_eq_self {s : Bytes} (h : strip s = s) : stripEnd s = s := by
  conv => lhs; rw [← stripStart_eq_self h]
  exact h

theorem leading_eq_zero {s : Bytes} (h : strip s = s) : leading s = 0 := by
  have hsplit := takeWhile_append_stripStart s
  rw [stripStart_eq_self h] at hsplit
  rw [leading, List.append_left_eq_self.1 hsplit]
  rfl

/-- Where the last bytes of a class stand in front of a byte outside of it, the text is taken apart
there. -/
theorem span_append {α : Type} {p : α → Bool} {front rest : List α}
    (hfront : ∀ a ∈ front, p a = true) (hrest : ∀ a ∈ rest.head?, p a = false) :
    (front ++ rest).takeWhile p = front ∧ (front ++ rest).dropWhile p = rest := by
  rw [List.takeWhile_append_of_pos hfront, List.dropWhile_append_of_pos hfront]
  cases rest with
  | nil => simp
  | cons a rest =>
      have ha := hrest a rfl
      simp [ha]

/-! ### The first word -/

/-- Behind the stripped text there is whitespace only. -/
theorem exists_eq_strip_append (s : Bytes) :
    ∃ v, (∀ c ∈ v, isSpace c = true) ∧ stripStart s = strip s ++ v :=
  ⟨(stripStart s).rtakeWhile isSpace, fun _ hc => List.mem_rtakeWhile_imp hc,
    List.rdropWhile_append_rtakeWhile.symm⟩

/-- A text of one word is that word. -/
theorem takeWhile_stripStart_of_word {s : Bytes} (h : ∀ c ∈ strip s, isSpace c = false) :
    ((stripStart s).takeWhile fun c => !isSpace c) = strip s := by
  obtain ⟨v, hv, hsplit⟩ := exists_eq_strip_append s
  rw [hsplit]
  refine (span_append (fun c hc => ?_) fun c hc => ?_).1
  · rw [h c hc]
    rfl
  · rw [hv c (List.mem_of_head? hc)]
    rfl

/-- In a text of several words more follows the first one. -/
theorem length_takeWhile_stripStart_lt {s : Bytes} (h : ¬ ∀ c ∈ strip s, isSpace c = false) :
    ((stripStart s).takeWhile fun c => !isSpace c).length < (stripStart s).length := by
  refine Nat.lt_of_le_of_ne (List.takeWhile_prefix _).length_le fun heq => h fun c hc => ?_
  obtain ⟨v, -, hsplit⟩ := exists_eq_strip_append s
  have hword := length_takeWhile_eq_iff.1 heq c (hsplit ▸ List.mem_append_left v hc)
  simpa using hword

/-! ### Spaces in front -/

/-- Some spaces. -/
def spaces (n : Nat) : Bytes := List.replicate n space

@[simp] theorem length_spaces (n : Nat) : (spaces n).length = n := List.length_replicate

theorem isSpace_of_mem_spaces {n : Nat} {c : UInt8} (h : c ∈ spaces n) : isSpace c = true := by
  rw [List.eq_of_mem_replicate h]
  rfl

@[simp] theorem isBlank_spaces (n : Nat) : isBlank (spaces n) = true :=
  List.all_eq_true.2 fun _ => isSpace_of_mem_spaces

theorem takeWhile_isSpace_spaces_append (n : Nat) (s : Bytes) :
    (spaces n ++ s).takeWhile isSpace = spaces n ++ s.takeWhile isSpace :=
  List.takeWhile_append_of_pos fun _ => isSpace_of_mem_spaces

@[simp] theorem stripStart_spaces_append (n : Nat) (s : Bytes) :
    stripStart (spaces n ++ s) = stripStart s :=
  List.dropWhile_append_of_pos fun _ => isSpace_of_mem_spaces

@[simp] theorem strip_spaces_append (n : Nat) (s : Bytes) : strip (spaces n ++ s) = strip s := by
  rw [strip, stripStart_spaces_append, strip]

@[simp] theorem leading_spaces_append (n : Nat) (s : Bytes) :
    leading (spaces n ++ s) = n + leading s := by
  rw [leading, takeWhile_isSpace_spaces_append, List.length_append, length_spaces, leading]

@[simp] theorem isBlank_spaces_append (n : Nat) (s : Bytes) :
    isBlank (spaces n ++ s) = isBlank s := by
  rw [isBlank, List.all_append, show (spaces n).all isSpace = true from isBlank_spaces n]
  rfl

theorem drop_spaces_append (n k : Nat) (s : Bytes) : (spaces n ++ s).drop (n + k) = s.drop k := by
  have hdrop : (spaces n ++ s).drop n = s := List.drop_left' (length_spaces n)
  rw [← List.drop_drop, hdrop]

/-- Trailing whitespace stops at the text, provided that there is one. -/
theorem stripEnd_append_of_not_blank (t : Bytes) {s : Bytes} (h : isBlank s = false) :
    stripEnd (t ++ s) = t ++ stripEnd s := by
  have hne : s.reverse.dropWhile isSpace ≠ [] := fun hnil => by
    rw [stripEnd_eq_nil_iff.1 (List.reverse_eq_nil_iff.2 hnil)] at h
    cases h
  rw [stripEnd, List.reverse_append, List.dropWhile_append, if_neg (by simpa using hne),
    List.reverse_append, List.reverse_reverse, stripEnd]

/-- The first byte of the stripped text is the first one behind the leading whitespace. -/
theorem head?_strip (s : Bytes) : (strip s).head? = (stripStart s).head? := by
  cases hstart : stripStart s with
  | nil => rw [strip, hstart, stripEnd_eq_nil_iff.2 rfl]
  | cons c r =>
      have hc := List.head?_dropWhile_not isSpace s
      rw [← stripStart, hstart] at hc
      have hreverse :
          (r.reverse ++ [c]).dropWhile isSpace = r.reverse.dropWhile isSpace ++ [c] := by
        rw [List.dropWhile_append]
        split
        next hnil =>
          rw [List.isEmpty_iff.1 hnil, List.dropWhile_cons_of_neg (by simpa using hc)]
          rfl
        · rfl
      rw [strip, hstart, stripEnd, List.reverse_cons, hreverse, List.reverse_append]
      rfl

/-- A text that is not blank has its leading whitespace in front of the stripped text. -/
theorem stripEnd_eq_append {s : Bytes} (h : isBlank s = false) :
    stripEnd s = s.takeWhile isSpace ++ strip s := by
  have hrest : isBlank (stripStart s) = false := by rw [isBlank_stripStart, h]
  conv => lhs; rw [← takeWhile_append_stripStart s]
  exact stripEnd_append_of_not_blank _ hrest

/-- The stripped text begins with no whitespace. -/
theorem isSpace_head?_strip {s : Bytes} {c : UInt8} (hc : c ∈ (strip s).head?) :
    isSpace c = false := by
  have hstop := List.head?_dropWhile_not isSpace s
  rw [head?_strip, stripStart] at hc
  rwa [Option.mem_def.1 hc] at hstop

theorem leading_stripEnd {s : Bytes} (h : isBlank s = false) :
    leading (stripEnd s) = leading s := by
  rw [leading, stripEnd_eq_append h,
    (span_append (fun c hc => List.mem_takeWhile_imp hc) fun _ => isSpace_head?_strip).1, leading]

/-- The last byte of the stripped text is the last one in front of the trailing whitespace. -/
theorem getLast?_strip (s : Bytes) : (strip s).getLast? = (stripEnd s).getLast? := by
  cases hblank : isBlank s with
  | true => rw [strip_eq_nil_iff.2 hblank, stripEnd_eq_nil_iff.2 hblank]
  | false =>
      rw [stripEnd_eq_append hblank,
        List.getLast?_append_of_ne_nil _ (isBlank_eq_false_iff.1 hblank)]

/-- The stripped text ends with no whitespace. -/
theorem isSpace_getLast?_strip {s : Bytes} {c : UInt8} (hc : c ∈ (strip s).getLast?) :
    isSpace c = false := by
  have hstop := List.head?_dropWhile_not isSpace s.reverse
  rw [getLast?_strip, stripEnd, List.getLast?_reverse] at hc
  rwa [Option.mem_def.1 hc] at hstop

/-- Stripping again changes nothing. -/
theorem strip_strip (s : Bytes) : strip (strip s) = strip s :=
  strip_eq_self (fun _ => isSpace_head?_strip) fun _ => isSpace_getLast?_strip

/-- A text does not begin with another one if their first bytes differ. -/
theorem startsWith_cons_of_ne {c d : UInt8} (h : c ≠ d) (r t : Bytes) :
    startsWith (c :: r) (d :: t) = false := by
  rw [startsWith, List.isPrefixOf]
  simp [Ne.symm h]

/-- A text that does not begin with a space is found as far behind spaces as without them. -/
theorem offsetOf?_spaces_append {t : Bytes} {c : UInt8} {r : Bytes} (ht : t = c :: r)
    (hc : c ≠ space) (n : Nat) (s : Bytes) :
    offsetOf? t (spaces n ++ s) = (offsetOf? t s).map (n + ·) := by
  induction n with
  | zero => simp [spaces]
  | succ n ih =>
      have hno : startsWith (space :: (spaces n ++ s)) t = false := by
        rw [ht, startsWith_cons_of_ne (Ne.symm hc)]
      have hcons : spaces (n + 1) ++ s = space :: (spaces n ++ s) := rfl
      rw [hcons, offsetOf?, if_neg (by simp [hno]), ih, Option.map_map]
      congr 1
      funext k
      simp only [Function.comp_apply]
      omega

/-! ### The last byte -/

/-- A text ends with a byte if this is its last one. -/
theorem endsWith_singleton_iff {s : Bytes} {c : UInt8} :
    endsWith s [c] = true ↔ s.getLast? = some c := by
  rw [endsWith, List.isSuffixOf_iff_suffix, List.getLast?_eq_some_iff]
  exact ⟨fun ⟨t, ht⟩ => ⟨t, ht.symm⟩, fun ⟨t, ht⟩ => ⟨t, ht.symm⟩⟩

end Bytes

end DocLint
