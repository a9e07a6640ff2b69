import DocLint.Proofs.Canonical.Layout
import DocLint.Proofs.Docstring.EntryHeader

/-!
# The headers of canonical entries

A header is a name, a colon between spaces, and a type declaration, or nothing but a word.  It is
read as what it was made of, and none of its colons is tight.

* `ofHeader_of_bareType`: what is read of a header without a name.
* `tightColons_parameterHeader`: the colons of a header.
* `namesOf_of_isName`: a name documents itself.
-/

namespace DocLint

open Bytes

/-! ### Texts -/

theorem IsName.strip_eq {s : Bytes} (h : IsName s) : strip s = s :=
  strip_eq_self (fun c hc => (isNameByte_plain (h.2 c (List.mem_of_head? hc))).1)
    (fun c hc => (isNameByte_plain (h.2 c (List.mem_of_getLast? hc))).1)

theorem IsName.not_mem {s : Bytes} (h : IsName s) {c : UInt8}
    (hc : c ∈ [byte '.', byte '-', byte '=', byte ':', byte ',', byte '*', newline]) : c ∉ s :=
  fun hmem => (isNameByte_plain (h.2 c hmem)).2 hc

theorem IsName.isEntryName {s : Bytes} (h : IsName s) : IsEntryName s :=
  ⟨h.1, h.not_mem (by simp), h.strip_eq⟩

theorem IsPlainType.not_blank {s : Bytes} (h : IsPlainType s) : isBlank s = false := by
  rw [← Bool.not_eq_true, ← strip_eq_nil_iff, h.strip_eq]
  exact h.ne_nil

/-! ### Types and names -/

namespace TypeList

/-- Where a text stands does not change the types in it. -/
theorem ofText_values (text : Bytes) (origin origin' : Position) :
    (ofText text origin 0).types.map Fragment.value =
        (ofText text origin' 0).types.map Fragment.value ∧
      (ofText text origin 0).optionalCount = (ofText text origin' 0).optionalCount := by
  constructor
  · simp only [ofText, List.filter_map, List.map_map, Function.comp_def]
    rfl
  · simp only [ofText, List.filter_map, List.countP_map, Function.comp_def]
    rfl

end TypeList

namespace ParameterEntry

variable {header : DocLine} {type : Bytes}

/-- A bare type has no name. -/
theorem ofHeader_of_bareType (h : header.text = type) (htype : IsName type) :
    (ofHeader header true).name = none := by
  have hname := headerName_of_bare h htype.isEntryName
  rw [Option.map_eq_some_iff] at hname
  obtain ⟨value, hvalue, -⟩ := hname
  rw [ofHeader, headerTypes_of_bare h htype.isEntryName, hvalue]
  rfl

end ParameterEntry

/-! ### Colons -/

namespace Check

/-- No colon stands beside the first byte of a text. -/
theorem tightLength_of_apart {first : Bool} {c : UInt8} {r : Bytes}
    (hc : isSpace c = false ∧ c ≠ byte ':') (hnext : r.head? ≠ some (byte ':')) :
    tightLength first (c :: r) = 0 := by
  have hstart : startsWith (stripStart (c :: r)) (ascii ":") = false := by
    rw [stripStart, List.dropWhile_cons_of_neg (by simp [hc.1])]
    exact startsWith_cons_of_ne hc.2 r []
  have hbehind : (r.head? == some (byte ':')) = false := by simpa using hnext
  have hno : (c == byte ':') = false := by simpa using hc.2
  rw [tightLength]
  simp only [hbehind, hno, hstart, Bool.and_false, Bool.false_and, Bool.false_eq_true, if_false]

theorem tightColonsFrom_cons {offset : Nat} {c : UInt8} {r : Bytes}
    (h : tightLength (offset == 0) (c :: r) = 0) :
    tightColonsFrom 0 offset (c :: r) = tightColonsFrom 0 (offset + 1) r := by
  rw [tightColonsFrom, h]

/-- Where a text has no tight colon, it has none behind another text either. -/
theorem tightColonsFrom_eq_nil_of {s : Bytes} {i : Nat} (h : tightColonsFrom 0 i s = [])
    (j : Nat) : tightColonsFrom 0 (j + 1) s = [] := by
  induction s generalizing i j with
  | nil => rfl
  | cons c r ih =>
      cases hlength : tightLength (i == 0) (c :: r) with
      | succ n =>
          rw [tightColonsFrom, hlength] at h
          cases h
      | zero =>
          have hlater : tightLength (j + 1 == 0) (c :: r) = 0 := by
            -- What is asked at the beginning only can make the length larger, but not smaller.
            have hno : (j + 1 == 0) = false := rfl
            rw [tightLength] at hlength ⊢
            rw [hno]
            grind
          rw [tightColonsFrom_cons hlength] at h
          rw [tightColonsFrom_cons hlater]
          exact ih h (j + 1)

/-- A name in front of a space has no tight colon. -/
theorem tightColonsFrom_append {name rest : Bytes}
    (hname : ∀ c ∈ name, isNameByte c = true) (hrest : rest.head? = some space) (i : Nat) :
    tightColonsFrom 0 i (name ++ rest) = tightColonsFrom 0 (i + name.length) rest := by
  induction name generalizing i with
  | nil => rfl
  | cons c r ih =>
      obtain ⟨hspace, hplain⟩ := isNameByte_plain (hname c List.mem_cons_self)
      have hr : ∀ c ∈ r, isNameByte c = true := fun d hd => hname d (List.mem_cons_of_mem c hd)
      have hcolon : c ≠ byte ':' := by
        rintro rfl
        exact hplain (by simp)
      -- Behind each byte stands another one of the name, or the space.
      have hnext : (r ++ rest).head? ≠ some (byte ':') := by
        cases r with
        | nil =>
            rw [List.nil_append, hrest]
            decide
        | cons d r =>
            intro hd
            cases hd
            exact (isNameByte_plain (hr _ List.mem_cons_self)).2 (by simp)
      rw [List.cons_append, tightColonsFrom_cons (tightLength_of_apart ⟨hspace, hcolon⟩ hnext),
        ih hr, List.length_cons]
      congr 1
      omega

theorem tightColons_parameterHeader {p : ParameterText} (hname : IsName p.declared.name)
    (htype : IsPlainType p.type) : tightColons (CanonicalText.parameterHeader p) = [] := by
  have hsplit : CanonicalText.parameterHeader p =
      p.declared.name ++ (space :: byte ':' :: space :: p.type) := rfl
  have hpos := List.length_pos_iff.2 hname.1
  obtain ⟨n, hn⟩ := Nat.exists_eq_succ_of_ne_zero hpos.ne'
  have hcolon : tightLength false (byte ':' :: space :: p.type) = 0 := by
    have hbehind : isBlank (space :: p.type) = false := htype.not_blank
    rw [tightLength, hbehind]
    rfl
  have hstep {c : UInt8} {r : Bytes} (h : tightLength false (c :: r) = 0) (i : Nat) :
      tightColonsFrom 0 (i + 1) (c :: r) = tightColonsFrom 0 (i + 2) r := tightColonsFrom_cons h
  rw [tightColons, hsplit, tightColonsFrom_append hname.2 rfl, Nat.zero_add, hn, hstep rfl,
    hstep hcolon, hstep rfl]
  exact tightColonsFrom_eq_nil_of htype.no_tightColon _

/-- A name documents itself. -/
theorem namesOf_of_isName {name : Bytes} (h : IsName name) : namesOf name = [name] := by
  have hstars : dropStars name = name := by
    obtain ⟨c, r, rfl⟩ := List.exists_cons_of_ne_nil h.1
    have hc : c ≠ byte '*' := by
      rintro rfl
      exact h.not_mem (by simp) List.mem_cons_self
    rw [dropStars, List.dropWhile_cons_of_neg (by simpa using hc)]
  rw [namesOf, splitOn_eq_singleton (h.not_mem (by simp)), List.map_singleton, h.strip_eq,
    List.filter_cons_of_pos (by simpa using h.1), List.filter_nil, List.map_singleton, hstars]

end Check

end DocLint
