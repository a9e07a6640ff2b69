import DocLint.Docstring.Signature
import DocLint.Proofs.Printing.References

/-!
# Which texts are signatures

A signature is put together from targets with an equals sign behind them, which may be missing, from
whitespace, a dotted name, and arguments in parentheses.  The arguments are any text, so they may
hold equals signs and parentheses of their own.  Still no text is put together in two ways: what
stands in front of the first equals sign is the targets, unless it holds a parenthesis.

* `CallParts.text_injective`, `SignatureParts.text_injective`: the parts can be told from the text.
* `looksLikeCall_iff`: which texts are calls.
* `SignatureParts.getLast?_text`: a signature ends with a parenthesis.
* `looksLikeSignature_iff_parts`: which texts are signatures.
-/

namespace DocLint

open Bytes

/-- The parts of a call, with the whitespace in front of it. -/
@[ext] structure CallParts where
  blank : Bytes
  name : Bytes
  /-- What stands between the opening parenthesis and the last byte, which closes it. -/
  arguments : Bytes
  blank_isSpace : ∀ c ∈ blank, isSpace c = true
  name_isRun : IsRun isDottedByte name

/-- The parts of a signature: a call, and the targets to which it is assigned, if there are any. -/
@[ext] structure SignatureParts where
  target : Option Bytes
  call : CallParts
  target_isRun : ∀ t ∈ target, IsRun isTargetByte t

/-- The call as it is written. -/
def CallParts.text (x : CallParts) : Bytes :=
  x.blank ++ (x.name ++ byte '(' :: (x.arguments ++ [byte ')']))

/-- The signature as it is written. -/
def SignatureParts.text (x : SignatureParts) : Bytes :=
  match x.target with
  | none => x.call.text
  | some t => t ++ byte '=' :: x.call.text

variable {c : UInt8} {s : Bytes}

theorem isReferenceByte_of_isDottedByte (h : isDottedByte c = true) : isReferenceByte c = true := by
  simp only [isDottedByte, isReferenceByte, Bool.or_eq_true] at h ⊢
  tauto

/-! ### Calls -/

namespace CallParts

/-- Whitespace ends where the name begins. -/
theorem span_blank (x : CallParts) :
    x.text.takeWhile isSpace = x.blank ∧
      stripStart x.text = x.name ++ byte '(' :: (x.arguments ++ [byte ')']) := by
  refine span_append x.blank_isSpace fun c hc => ?_
  obtain ⟨d, rest, hname⟩ := List.exists_cons_of_ne_nil x.name_isRun.1
  rw [hname] at hc
  cases hc
  have hdotted := x.name_isRun.2 c (hname ▸ List.mem_cons_self)
  exact (Reference.isReferenceByte_plain (isReferenceByte_of_isDottedByte hdotted)).1

/-- The name ends at the opening parenthesis. -/
theorem span_name (x : CallParts) :
    (stripStart x.text).takeWhile isDottedByte = x.name ∧
      (stripStart x.text).dropWhile isDottedByte =
        byte '(' :: (x.arguments ++ [byte ')']) := by
  rw [x.span_blank.2]
  exact span_append x.name_isRun.2 fun c hc => by cases hc; decide

/-- The parts of a call can be told from its text. -/
theorem text_injective : Function.Injective text := by
  intro x y h
  have hblank : x.blank = y.blank := by rw [← x.span_blank.1, h, y.span_blank.1]
  have hname : x.name = y.name := by rw [← x.span_name.1, h, y.span_name.1]
  have hbehind : byte '(' :: (x.arguments ++ [byte ')']) =
      byte '(' :: (y.arguments ++ [byte ')']) := by
    rw [← x.span_name.2, h, y.span_name.2]
  have harguments : x.arguments = y.arguments :=
    List.append_cancel_right (List.cons.inj hbehind).2
  exact CallParts.ext hblank hname harguments

/-- In a call there is a parenthesis in front of the first equals sign. -/
theorem parenthesis_mem_takeWhile (x : CallParts) :
    byte '(' ∈ x.text.takeWhile (· ≠ byte '=') := by
  have hfront : ∀ c ∈ x.blank ++ x.name, decide (c ≠ byte '=') = true := by
    intro c hc
    refine decide_eq_true fun hequals => ?_
    subst hequals
    rcases List.mem_append.1 hc with hc | hc
    · exact absurd (x.blank_isSpace _ hc) (by decide)
    · exact absurd (x.name_isRun.2 _ hc) (by decide)
  rw [text, ← List.append_assoc, List.takeWhile_append_of_pos hfront,
    List.takeWhile_cons_of_pos (by decide)]
  exact List.mem_append_right _ List.mem_cons_self

end CallParts

/-- The texts that look like calls are the texts of calls: the longest run of name bytes ends where
the name of any call ends. -/
theorem looksLikeCall_iff : looksLikeCall s = true ↔ ∃ x : CallParts, x.text = s := by
  unfold looksLikeCall
  simp only [Bool.and_eq_true, Bool.not_eq_true', List.isEmpty_eq_false_iff, beq_iff_eq]
  constructor
  · rintro ⟨⟨hname, hopen⟩, hclose⟩
    obtain ⟨behind, hbehind⟩ := List.head?_eq_some_iff.1 hopen
    rw [hbehind, List.tail_cons] at hclose
    obtain ⟨arguments, harguments⟩ := List.getLast?_eq_some_iff.1 hclose
    refine ⟨⟨s.takeWhile isSpace, (stripStart s).takeWhile isDottedByte, arguments,
      fun c hc => List.mem_takeWhile_imp hc, hname, fun c hc => List.mem_takeWhile_imp hc⟩, ?_⟩
    rw [CallParts.text, ← harguments, ← hbehind, List.takeWhile_append_dropWhile]
    exact takeWhile_append_stripStart s
  · rintro ⟨x, rfl⟩
    rw [x.span_name.1, x.span_name.2]
    exact ⟨⟨x.name_isRun.1, rfl⟩, by rw [List.tail_cons, List.getLast?_concat]⟩

/-! ### Signatures -/

namespace SignatureParts

variable {x : SignatureParts} {t : Bytes}

/-- Targets end at the first equals sign. -/
theorem span_target (h : x.target = some t) :
    x.text.takeWhile (· ≠ byte '=') = t ∧
      x.text.dropWhile (· ≠ byte '=') = byte '=' :: x.call.text := by
  have htext : x.text = t ++ byte '=' :: x.call.text := by rw [text, h]
  rw [htext]
  refine span_append (fun c hc => decide_eq_true fun hequals => ?_) fun c hc => by cases hc; decide
  subst hequals
  exact absurd ((x.target_isRun t h).2 _ hc) (by decide)

/-- A call is no call with targets in front of it. -/
theorem text_ne_of_target (h : x.target = some t) (y : CallParts) : x.text ≠ y.text := by
  intro htext
  have hmem := y.parenthesis_mem_takeWhile
  rw [← htext, (span_target h).1] at hmem
  exact absurd ((x.target_isRun t h).2 _ hmem) (by decide)

/-- The parts of a signature can be told from its text. -/
theorem text_injective : Function.Injective text := by
  intro x y h
  cases hx : x.target with
  | none =>
      have htext : x.text = x.call.text := by rw [text, hx]
      cases hy : y.target with
      | none =>
          have hcall : x.call = y.call := CallParts.text_injective (by
            rw [← htext, h, text, hy])
          exact SignatureParts.ext (hx.trans hy.symm) hcall
      | some u => exact absurd (h.symm.trans htext) (text_ne_of_target hy x.call)
  | some t =>
      cases hy : y.target with
      | none =>
          have htext : y.text = y.call.text := by rw [text, hy]
          exact absurd (h.trans htext) (text_ne_of_target hx y.call)
      | some u =>
          have htarget : t = u := by rw [← (span_target hx).1, h, (span_target hy).1]
          have hvalue : byte '=' :: x.call.text = byte '=' :: y.call.text := by
            rw [← (span_target hx).2, h, (span_target hy).2]
          have hcall := CallParts.text_injective (List.cons.inj hvalue).2
          exact SignatureParts.ext (by rw [hx, hy, htarget]) hcall

/-- A signature ends with the parenthesis that closes its arguments. -/
theorem getLast?_text (x : SignatureParts) : x.text.getLast? = some (byte ')') := by
  have hcall : x.call.text.getLast? = some (byte ')') := by
    rw [CallParts.text, ← List.cons_append, ← List.append_assoc, ← List.append_assoc,
      List.getLast?_concat]
  rw [text]
  split
  · exact hcall
  · rw [List.getLast?_append, List.getLast?_cons, hcall]
    rfl

/-- What is split at the first equals sign is put together again. -/
theorem exists_of_assigned {value : Bytes} (hvalue : s.dropWhile (· ≠ byte '=') = c :: value)
    (hne : s.takeWhile (· ≠ byte '=') ≠ [])
    (htarget : ∀ d ∈ s.takeWhile (· ≠ byte '='), isTargetByte d = true)
    (hcall : looksLikeCall value = true) : ∃ x : SignatureParts, x.text = s := by
  obtain ⟨call, hcalltext⟩ := looksLikeCall_iff.1 hcall
  have hequals : c = byte '=' := by
    have hhead := List.head?_dropWhile_not (· ≠ byte '=') s
    rw [hvalue] at hhead
    simpa using hhead
  subst hequals
  refine ⟨⟨some (s.takeWhile (· ≠ byte '=')), call, fun t ht => ?_⟩, ?_⟩
  · cases ht
    exact ⟨hne, htarget⟩
  · rw [text]
    dsimp only
    rw [hcalltext, ← hvalue, List.takeWhile_append_dropWhile]

/-- What looks like a signature is put together from the parts of one. -/
theorem exists_of_looksLikeSignature (h : looksLikeSignature s = true) :
    ∃ x : SignatureParts, x.text = s := by
  unfold looksLikeSignature at h
  dsimp only at h
  rcases Bool.or_eq_true_iff.1 h with hassigned | hcall
  · split at hassigned
    · cases hassigned
    next c value hvalue =>
      simp only [Bool.and_eq_true, Bool.not_eq_true', List.isEmpty_eq_false_iff,
        List.all_eq_true] at hassigned
      exact exists_of_assigned hvalue hassigned.1.1 hassigned.1.2 hassigned.2
  · obtain ⟨call, hcalltext⟩ := looksLikeCall_iff.1 hcall
    exact ⟨⟨none, call, fun t ht => by cases ht⟩, hcalltext⟩

/-- What is put together from the parts of a signature looks like one. -/
theorem looksLikeSignature_text (x : SignatureParts) : looksLikeSignature x.text = true := by
  have hcall : looksLikeCall x.call.text = true := looksLikeCall_iff.2 ⟨x.call, rfl⟩
  unfold looksLikeSignature
  dsimp only
  cases hx : x.target with
  | none =>
      have htext : x.text = x.call.text := by rw [text, hx]
      rw [htext, hcall, Bool.or_true]
  | some t =>
      have htarget := x.target_isRun t hx
      rw [(span_target hx).1, (span_target hx).2]
      simp only [hcall, Bool.and_true, Bool.or_eq_true, Bool.and_eq_true, Bool.not_eq_true',
        List.isEmpty_eq_false_iff, List.all_eq_true]
      exact .inl htarget

end SignatureParts

/-- A text looks like a signature exactly when it is put together from the parts of one, wherever
its equals signs are and wherever the name could end.  The parts are the only ones that the text
has, so the first equals sign and the longest name are never the wrong choice. -/
theorem looksLikeSignature_iff_parts (s : Bytes) :
    (looksLikeSignature s = true ↔ ∃ x : SignatureParts, x.text = s) ∧
      ∀ x y : SignatureParts, x.text = s → y.text = s → x = y := by
  refine ⟨⟨SignatureParts.exists_of_looksLikeSignature, ?_⟩, fun x y hx hy =>
    SignatureParts.text_injective (hx.trans hy.symm)⟩
  rintro ⟨x, rfl⟩
  exact x.looksLikeSignature_text

/-- The first equals sign may be one of the arguments'. -/
example : looksLikeSignature (ascii "f(a=1)") = true := by decide

end DocLint
