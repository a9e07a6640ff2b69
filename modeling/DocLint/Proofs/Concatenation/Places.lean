import DocLint.Proofs.Concatenation.Seam
import DocLint.Proofs.Source.TokenText
import DocLint.Source.Noqa

/-!
# The lines of two texts

A text that ends with two newlines stands above what is written behind it, with a line between its
comments and the first line of the other text.  So suppression comments of the one do not belong to
declarations of the other, and the source text of a token is the same in both together.

* `EndsWithBlank.line_le`, `EndsWithBlank.comment_line_lt`: the last lines of the text in front.
* `codesFor_append`, `codesFor_behind`: the comments of the one text and of the other.
* `sourceText?_append`, `sourceText?_behind`: source text around tokens.
-/

namespace DocLint

open Bytes

/-! ### The last lines of a text -/

/-- In front of its last bytes a text has no newlines but those in front of them. -/
theorem count_take_le {front : Bytes} {k : Nat} (tail : Bytes) (h : k ≤ front.length) :
    ((front ++ tail).take k).count newline ≤ front.count newline := by
  rw [List.take_append_of_le_length h]
  exact (List.take_sublist k front).count_le newline

/-- A text that ends with two newlines, small enough for positions. -/
structure EndsWithBlank (text : Bytes) : Prop where
  suffix : [newline, newline] <:+ text
  size : text.length < 2 ^ 31

namespace EndsWithBlank

variable {text : Bytes} (h : EndsWithBlank text)
include h

/-- What does not stand at the end stands on a line that a newline ends. -/
theorem line_le {t : Token} (hposition : t.position.IsAt text t.offset)
    (ht : t.offset < text.length) : t.position.line.toNat ≤ text.count newline := by
  obtain ⟨front, hfront⟩ := h.suffix
  have hsplit : text = (front ++ [newline]) ++ [newline] := by rw [← hfront, List.append_assoc]; rfl
  have hcount : text.count newline = (front ++ [newline]).count newline + 1 := by
    rw [hsplit, List.count_append]
    rfl
  have hle : t.offset ≤ (front ++ [newline]).length := by
    rw [hsplit, List.length_append] at ht
    exact Nat.le_of_lt_succ ht
  have htake := count_take_le [newline] hle
  rw [← hsplit] at htake
  rw [hposition.1, hcount]
  omega

/-- Below a comment there are two lines. -/
theorem comment_line_lt {c : Comment} (hc : c ∈ (LexedSource.ofSource text).comments) :
    c.position.line.toNat < text.count newline := by
  obtain ⟨⟨-, hoccurs⟩, hline, -⟩ := (LexedSource.ofSource_tiles h.size).comment_place c hc
  have hsign : c.text.head? = some (byte '#') :=
    LexedSource.ofSource_isSpelled text _ (LexedSource.mem_comments_iff.1 hc)
  obtain ⟨front, hfront⟩ := h.suffix
  have hle : c.offset ≤ front.length := by
    by_contra hlt
    -- Only newlines are that far behind.
    obtain ⟨r, hr⟩ := List.head?_eq_some_iff.1 hsign
    obtain ⟨behind, hbehind⟩ := hoccurs
    have hdrop : text.drop c.offset <:+ [newline, newline] := by
      rw [← hfront, List.drop_append, List.drop_eq_nil_of_le (by omega), List.nil_append]
      exact List.drop_suffix _ _
    have hmem : byte '#' ∈ [newline, newline] := hdrop.subset (by rw [← hbehind, hr]; simp)
    exact absurd hmem (by decide)
  have hcount : text.count newline = front.count newline + 2 := by
    rw [← hfront, List.count_append]
    rfl
  have htake := count_take_le [newline, newline] hle
  rw [hfront] at htake
  omega

end EndsWithBlank

/-! ### Suppression comments -/

namespace Noqa

variable {first last : UInt32} {comments more : List Comment}

theorem takeWhile_append_of_none {α : Type} {p : α → Bool} {more : List α}
    (h : ∀ a ∈ more, p a = false) (list : List α) :
    (list ++ more).takeWhile p = list.takeWhile p := by
  induction list with
  | nil =>
      cases more with
      | nil => rfl
      | cons a more => exact List.takeWhile_cons_of_neg (by simp [h a List.mem_cons_self])
  | cons a list ih => rw [List.cons_append, List.takeWhile_cons, List.takeWhile_cons, ih]

/-- Comments below the header do not belong to it. -/
theorem codesFor_append (h : ∀ c ∈ more, last < c.position.line) :
    codesFor first last (comments ++ more) = codesFor first last comments := by
  have hbelow : ∀ c ∈ more, decide (c.position.line ≤ last) = false := fun c hc =>
    decide_eq_false (UInt32.not_le.2 (h c hc))
  have hwindow : window first last (comments ++ more) = window first last comments := by
    rw [window, window, List.dropWhile_append]
    split
    next hnone =>
      rw [List.isEmpty_iff.1 hnone]
      have hrest (c : Comment)
          (hc : c ∈ more.dropWhile fun c => decide (c.position.line < first - 1)) :=
        hbelow c ((List.dropWhile_suffix _).subset hc)
      exact takeWhile_append_of_none hrest []
    · exact takeWhile_append_of_none hbelow _
  rw [codesFor, codesFor, hwindow]

/-- Comments above the line above the header do not belong to it. -/
theorem codesFor_behind (h : ∀ c ∈ comments, c.position.line < first - 1) :
    codesFor first last (comments ++ more) = codesFor first last more := by
  have hall : comments.dropWhile (fun c => decide (c.position.line < first - 1)) = [] :=
    List.dropWhile_eq_nil_iff.2 fun c hc => decide_eq_true (h c hc)
  rw [codesFor, codesFor, window, window, List.dropWhile_append, hall]
  rfl

theorem takeWhile_congr {α : Type} {p q : α → Bool} {list : List α} (h : ∀ a ∈ list, p a = q a) :
    list.takeWhile p = list.takeWhile q := by
  induction list with
  | nil => rfl
  | cons a list ih =>
      rw [List.takeWhile_cons, List.takeWhile_cons, h a List.mem_cons_self,
        ih fun b hb => h b (List.mem_cons_of_mem a hb)]

theorem dropWhile_congr {α : Type} {p q : α → Bool} {list : List α} (h : ∀ a ∈ list, p a = q a) :
    list.dropWhile p = list.dropWhile q := by
  induction list with
  | nil => rfl
  | cons a list ih =>
      rw [List.dropWhile_cons, List.dropWhile_cons, h a List.mem_cons_self,
        ih fun b hb => h b (List.mem_cons_of_mem a hb)]

section Lower

variable {lines : UInt32} {bytes : Nat} (hfirst : 0 < first)
  (hstart : first.toNat + lines.toNat < 2 ^ 32) (hlast : last.toNat + lines.toNat < 2 ^ 32)
  (h : ∀ c ∈ comments, c.position.line.toNat + lines.toNat < 2 ^ 32)
include hfirst hstart hlast h

theorem window_lower :
    window (first + lines) (last + lines) (comments.map (Comment.lower lines bytes)) =
      (window first last comments).map (Comment.lower lines bytes) := by
  rw [UInt32.lt_iff_toNat_lt, UInt32.toNat_zero] at hfirst
  have hone : 1 ≤ first + lines ∧ 1 ≤ first := by
    simp only [UInt32.le_iff_toNat_le, UInt32.toNat_add, UInt32.toNat_one]
    omega
  have habove : ∀ c ∈ comments,
      decide ((c.lower lines bytes).position.line < first + lines - 1) =
        decide (c.position.line < first - 1) := fun c hc => by
    have hline := h c hc
    refine decide_eq_decide.2 ?_
    simp only [Comment.lower, Position.line_lower, UInt32.lt_iff_toNat_lt,
      UInt32.toNat_sub_of_le _ _ hone.1, UInt32.toNat_sub_of_le _ _ hone.2, UInt32.toNat_add,
      UInt32.toNat_one]
    omega
  have hbelow : ∀ c ∈ comments, decide ((c.lower lines bytes).position.line ≤ last + lines) =
      decide (c.position.line ≤ last) := fun c hc => by
    have hline := h c hc
    refine decide_eq_decide.2 ?_
    simp only [Comment.lower, Position.line_lower, UInt32.le_iff_toNat_le, UInt32.toNat_add]
    omega
  rw [window, window, List.dropWhile_map, List.takeWhile_map]
  refine congrArg _ ((congrArg _ (dropWhile_congr habove)).trans (takeWhile_congr fun c hc => ?_))
  exact hbelow c ((List.dropWhile_suffix _).subset hc)

/-- Further down, the same comments belong to a header. -/
theorem codesFor_lower :
    codesFor (first + lines) (last + lines) (comments.map (Comment.lower lines bytes)) =
      codesFor first last comments := by
  have hattached : ∀ c ∈ window first last comments,
      isAttached (first + lines) (c.lower lines bytes) = isAttached first c := fun c hc => by
    have hline := h c ((List.dropWhile_suffix _).subset ((List.takeWhile_prefix _).subset hc))
    have habove : (c.position.line + lines + 1 == first + lines) = (c.position.line + 1 == first) := by
      rw [UInt32.add_assoc, UInt32.add_comm lines, ← UInt32.add_assoc]
      simp
    have hbelow : decide (first + lines ≤ c.position.line + lines) =
        decide (first ≤ c.position.line) := by
      refine decide_eq_decide.2 ?_
      simp only [UInt32.le_iff_toNat_le, UInt32.toNat_add]
      omega
    rw [isAttached, isAttached]
    exact congr (congrArg _ habove) hbelow
  rw [codesFor, codesFor, window_lower hfirst hstart hlast h, List.filter_map, List.flatMap_map]
  exact congrArg (List.flatMap fun c => codes c.text) (List.filter_congr hattached)

end Lower

end Noqa

/-! ### Source text -/

section SourceText

variable {source more : Bytes} {item : List Token}

/-- Source text in front of other text. -/
theorem sourceText?_append (h : ∀ t ∈ item, t.offset + t.text.length ≤ source.length) :
    sourceText? (source ++ more) item = sourceText? source item := by
  unfold sourceText?
  split
  next first last hfirst hlast =>
    have hstart := h first (List.mem_of_head? hfirst)
    have hstop := h last (List.mem_of_getLast? hlast)
    rw [List.drop_append_of_le_length (by omega), List.take_append_of_le_length]
    rw [List.length_drop]
    omega
  · rfl

/-- Source text behind other text. -/
theorem sourceText?_behind (lines : UInt32) (front : Bytes) (item : List Token) :
    sourceText? (front ++ source) (item.map (Token.lower lines front.length)) =
      sourceText? source item := by
  rw [sourceText?, sourceText?, List.head?_map, List.getLast?_map]
  cases item.head? with
  | none => rfl
  | some first =>
      cases item.getLast? with
      | none => rfl
      | some last =>
          have hdrop : (front ++ source).drop (first.offset + front.length) =
              source.drop first.offset := by
            rw [Nat.add_comm, List.drop_length_add_append]
          have hlength : last.offset + front.length + last.text.length -
              (first.offset + front.length) = last.offset + last.text.length - first.offset := by
            omega
          simp only [Option.map_some, Token.lower, hdrop, hlength]

end SourceText

end DocLint
