import DocLint.Check.Registry
import DocLint.Proofs.Text.Edges

/-!
# The pieces that checks read

Some checks read pieces of a text, or of the declared parameters, from an index on.  Each piece
begins in the list or at its end, so that nothing fails, and what is read is found without indices:
behind the leading whitespace, between the first byte and the last.

* `readDirective_eq`, `readEmptyChoice_eq`, `readDisorders_eq`: what is read.
* `directiveColons_eq`, `summaryVerb_eq`, `parameterOrder_eq`, `emptyChoices_eq`: the checks.
-/

namespace DocLint

namespace Check

open Bytes

theorem ok_bind {α β : Type} (a : α) (f : α → Except Failure β) :
    (Except.ok a >>= f) = f a := rfl

/-! ### Behind the leading whitespace -/

theorem startsWith_iff_take {s front : Bytes} :
    startsWith s front = true ↔ s.take front.length = front := by
  rw [startsWith, List.isPrefixOf_iff_prefix, List.prefix_iff_eq_take, eq_comm]

theorem length_le_of_startsWith {s front : Bytes} (h : startsWith s front = true) :
    front.length ≤ s.length :=
  (List.isPrefixOf_iff_prefix.1 h).length_le

/-- A piece behind the leading whitespace. -/
theorem slice_leading_add {s : Bytes} {offset : Nat} (h : offset ≤ (stripStart s).length)
    (length : Nat) :
    slice s (leading s + offset) length = .ok (((stripStart s).drop offset).take length) := by
  have hlength := congrArg List.length (drop_leading s)
  rw [List.length_drop] at hlength
  have hle := leading_le s
  rw [slice_of_le (by omega), ← List.drop_drop, drop_leading]

/-- The directive that a line begins with is read without a failure. -/
theorem readDirective_eq (s : Bytes) : readDirective s = .ok (bareDirective? s) := by
  have hdots : slice s (leading s) 3 = .ok ((stripStart s).take 3) :=
    slice_leading_add (Nat.zero_le _) 3
  unfold readDirective bareDirective?
  dsimp only
  rw [hdots, ok_bind]
  by_cases hstarts : startsWith (stripStart s) (ascii ".. ") = true
  case neg =>
    have htake : (stripStart s).take 3 ≠ ascii ".. " := fun h => hstarts (startsWith_iff_take.2 h)
    rw [if_neg hstarts, if_neg htake]
    rfl
  case pos =>
    have htake : (stripStart s).take 3 = ascii ".. " := startsWith_iff_take.1 hstarts
    have hthree : 3 ≤ (stripStart s).length := length_le_of_startsWith hstarts
    have hwhole : ((stripStart s).drop 3).take s.length = (stripStart s).drop 3 := by
      have hlength : (stripStart s).length ≤ s.length :=
        (List.dropWhile_suffix (l := s) isSpace).length_le
      apply List.take_of_length_le
      rw [List.length_drop]
      omega
    rw [if_pos hstarts, if_pos htake, slice_leading_add hthree, hwhole, ok_bind]
    split
    · rfl
    next name hname =>
      -- The name is as long as in lower-case letters, so that it ends in the line.
      have hlength : 3 + name.length ≤ (stripStart s).length := by
        have hle := length_le_of_startsWith (List.find?_some hname)
        rw [toLower, List.length_map, List.length_drop] at hle
        omega
      rw [Nat.add_assoc, slice_leading_add hlength, ok_bind, slice_leading_add hthree,
        ← List.drop_drop]
      have hcolons : (((stripStart s).drop 3).drop name.length).take 2 = ascii "::" ↔
          startsWith (((stripStart s).drop 3).drop name.length) (ascii "::") = true :=
        (@startsWith_iff_take _ (ascii "::")).symm
      simp only [hcolons]
      split
      · rfl
      · rfl

/-- The directives without colons are looked for on every line. -/
theorem directiveColons_eq (d : Declaration) (doc : Docstring) :
    directiveColons d doc =
      (doc.lines.filterMap fun line =>
        (bareDirective? line.text).map fun found => (line, found)).mapM fun (line, k, name) =>
          Code.gl10.report (.ofLength (line.column k) (3 + name.length))
            (suggest "Fix the directive by inserting `::`.") [(ascii "directive", name)] := by
  have hread (line : DocLine) :
      ((readDirective line.text).map fun directive => directive.map fun found => (line, found)) =
        .ok ((bareDirective? line.text).map fun found => (line, found)) := by
    rw [readDirective_eq]
    rfl
  rw [directiveColons, readEach_eq_ok hread, ok_bind]

/-- The verb is the first word of the summary. -/
theorem summaryVerb_eq (d : Declaration) (doc : Docstring) :
    summaryVerb d doc =
      match summaryLines doc with
      | [] => silent
      | first :: _ =>
        let text := stripStart first.text
        let word := text.takeWhile fun c => !isSpace c
        if d.form.isCallable && decide (word.length < text.length) && endsWith word (ascii "s") then
          one (Code.ss05.report (.ofLength (first.column first.leading) word.length)
            (some (ascii "Use `" ++ word.dropLast ++ ascii "` instead of `" ++ word ++ ascii "`.")))
        else silent := by
  unfold summaryVerb
  cases summaryLines doc with
  | nil => rfl
  | cons first rest =>
    have hlead : slice first.text first.leading
        (first.leading + ((stripStart first.text).takeWhile fun c => !isSpace c).length -
          first.leading) = .ok ((stripStart first.text).takeWhile fun c => !isSpace c) := by
      have hword : ((stripStart first.text).takeWhile fun c => !isSpace c) <+: stripStart first.text :=
        List.takeWhile_prefix _
      have hslice := slice_leading_add (s := first.text) (Nat.zero_le _)
        ((stripStart first.text).takeWhile fun c => !isSpace c).length
      rw [Nat.add_zero, List.drop_zero, ← List.prefix_iff_eq_take.1 hword] at hslice
      rw [Nat.add_sub_cancel_left]
      exact hslice
    dsimp only
    rw [hlead, ok_bind]
    generalize (stripStart first.text).takeWhile (fun c => !isSpace c) = word
    have hstem : slice word 0 (word.length - 1) = .ok word.dropLast := by
      rw [slice_of_le (Nat.zero_le _), List.drop_zero, List.dropLast_eq_take]
    have hstop : first.leading + word.length < first.text.length ↔
        word.length < (stripStart first.text).length := by
      have hlength := congrArg List.length (takeWhile_append_stripStart first.text)
      rw [List.length_append] at hlength
      rw [← hlength, DocLine.leading, leading]
      omega
    rw [hstem, ok_bind, decide_eq_decide.2 hstop]
    cases d.form.isCallable && decide (word.length < (stripStart first.text).length) with
    | true => simp only [if_true, Bool.true_and]
    | false => rfl

/-! ### The declared parameters, parted -/

/-- The documented parameters that are out of order are read without a failure. -/
theorem readDisorders_eq (d : Declaration) (doc : Docstring) :
    readDisorders d doc = .ok (disorders d doc) := by
  unfold readDisorders disorders
  dsimp only
  split
  · rfl
  next first rest hother =>
    have hindex := (List.takeWhile_prefix (l := d.parameters)
      fun p => p.name != first.name).length_le
    generalize (d.parameters.takeWhile fun p => p.name != first.name).length = index at hindex ⊢
    have hback : (d.parameters.drop index).take d.parameters.length = d.parameters.drop index := by
      apply List.take_of_length_le
      rw [List.length_drop]
      exact Nat.sub_le _ _
    rw [slice_of_le (Nat.zero_le _), slice_of_le hindex, ok_bind, ok_bind, hback]
    rfl

theorem parameterOrder_eq (d : Declaration) (doc : Docstring) :
    parameterOrder d doc = ofParameters d ((disorders d doc).mapM fun (n, p) =>
      Code.pr03.report n.entry.span
        (some (ascii "The parameter should be `" ++ p.name ++ ascii "`."))
        [(ascii "documented", n.name), (ascii "declared", p.name)]) := by
  rw [parameterOrder, readDisorders_eq, ok_bind]

/-! ### Between the braces -/

/-- What stands between the braces of a choice set is read without a failure: there are two of
them, since one byte does not open and close it. -/
theorem readEmptyChoice_eq (type : Bytes) : readEmptyChoice type = .ok (isEmptyChoice type) := by
  unfold readEmptyChoice isEmptyChoice
  cases hbraces : startsWith type [byte '\x7b'] && endsWith type [byte '\x7d'] with
  | false => rfl
  | true =>
    rw [Bool.and_eq_true] at hbraces
    have hlength : 1 ≤ type.length := length_le_of_startsWith hbraces.1
    rw [if_pos rfl, slice_of_le hlength, Bool.true_and, List.dropLast_eq_take, List.length_drop]
    rfl

theorem emptyChoices_eq (d : Declaration) (doc : Docstring) :
    emptyChoices d doc = ofParameters d (
      ((parameterEntries doc).flatMap fun entry =>
        ((entry.types.getD []).filter fun type => isEmptyChoice type.value).map fun type =>
          (entry, type)).mapM fun (entry, type) =>
        Code.pre04.report type.span (suggest "Insert choices.") (subject "parameter" entry)) := by
  have hread (place : ParameterEntry × Fragment) :
      ((readEmptyChoice place.2.value).map fun isEmpty => if isEmpty then some place else none) =
        .ok (if isEmptyChoice place.2.value then some place else none) := by
    rw [readEmptyChoice_eq]
    rfl
  have hfound (entry : ParameterEntry) (types : List Fragment) :
      (types.map fun type => (entry, type)).filterMap (fun place =>
        if isEmptyChoice place.2.value then some place else none) =
        (types.filter fun type => isEmptyChoice type.value).map fun type => (entry, type) := by
    rw [List.filterMap_map, ← List.filterMap_eq_map, ← List.filterMap_eq_filter,
      List.filterMap_filterMap]
    refine List.filterMap_congr fun type _ => ?_
    rw [Function.comp_apply, Option.guard]
    cases isEmptyChoice type.value with
    | true => rfl
    | false => rfl
  rw [emptyChoices]
  dsimp only
  rw [readEach_eq_ok hread, ok_bind, List.filterMap_flatMap]
  simp only [hfound]

end Check

end DocLint
