import DocLint.Docstring.SeeAlso
import DocLint.Proofs.Docstring.EntryHeader

/-!
# References as they are printed

A reference is printed as a bare name, or as a name in backticks with an optional role in front.
References are printed with commas between them, and a description may follow behind a colon.

* `NameText.print`, `NameText.Sound`: how a name is printed, and what it must be like.
* `Reference.ofText?_print`: a printed name is read back, whatever follows it.
* `References.ofLine?_print`: so is a line of names.
-/

namespace DocLint

open Bytes

/-- A text of one class of bytes, which is not empty. -/
def IsRun (p : UInt8 → Bool) (s : Bytes) : Prop := s ≠ [] ∧ ∀ c ∈ s, p c = true

instance (p : UInt8 → Bool) (s : Bytes) : Decidable (IsRun p s) :=
  decidable_of_iff (s ≠ [] ∧ s.all p = true) (and_congr Iff.rfl List.all_eq_true)

/-- A role is a word: one with a domain in front, or any other than the domain. -/
def IsRole (role : Bytes) : Prop :=
  (∃ word, role = ascii "py:" ++ word ∧ IsRun isWord word) ∨ (IsRun isWord role ∧ role ≠ ascii "py")

/-- A name of a See Also entry before it is printed. -/
inductive NameText
  | plain (name : Bytes)
  /-- A name in backticks, with its role and the module that the name is shortened by. -/
  | quoted (role module : Option Bytes) (name : Bytes)

namespace NameText

/-- What a name in backticks begins with. -/
def shortening : Option Bytes → Bytes
  | none => []
  | some word => byte '~' :: (word ++ [byte '.'])

/-- The name as it is listed. -/
def value : NameText → Bytes
  | plain name => name
  | quoted _ module name => shortening module ++ name

/-- The role of the name. -/
def role? : NameText → Option Bytes
  | plain _ => none
  | quoted role _ _ => role

/-- The name stands without backticks. -/
def isPlain : NameText → Bool
  | plain _ => true
  | quoted _ _ _ => false

/-- A name in backticks. -/
def quote (name : Bytes) : Bytes := backtick :: (name ++ [backtick])

/-- The name as it is printed. -/
def print : NameText → Bytes
  | plain name => name
  | quoted none module name => quote (shortening module ++ name)
  | quoted (some role) module name =>
    byte ':' :: (role ++ byte ':' :: quote (shortening module ++ name))

/-- The name is made of letters, digits, underscores, periods and dashes. -/
def Sound : NameText → Prop
  | plain name => IsRun isReferenceByte name
  | quoted role module name =>
    (∀ r ∈ role, IsRole r) ∧ (∀ word ∈ module, IsRun isWord word) ∧ IsRun isReferenceByte name

end NameText

/-! ### One reference -/

namespace Reference

open NameText

theorem isReferenceByte_plain {c : UInt8} (h : isReferenceByte c = true) :
    isSpace c = false ∧ c ≠ byte ':' ∧ c ≠ backtick ∧ c ≠ byte '~' ∧ c ≠ byte ',' := by
  refine ⟨?_, ?_, ?_, ?_, ?_⟩
  · have hdot : byte '.' = 46 := rfl
    have hdash : byte '-' = 45 := rfl
    simp only [isReferenceByte, isWord, isAlpha, isUpper, isLower, isDigit, isSpace, hdot, hdash]
      at h ⊢
    grind
  all_goals
    rintro rfl
    revert h
    decide

theorem shortenedLength_print {module : Option Bytes} (hmodule : ∀ word ∈ module, IsRun isWord word)
    {name : Bytes} (hname : IsRun isReferenceByte name) (rest : Bytes) :
    shortenedLength (shortening module ++ (name ++ rest)) = (shortening module).length := by
  cases module with
  | none =>
      obtain ⟨c, r, rfl⟩ := List.exists_cons_of_ne_nil hname.1
      have hc := (isReferenceByte_plain (hname.2 c List.mem_cons_self)).2.2.2.1
      exact if_neg fun h => hc h.1
  | some word =>
      obtain ⟨hne, hword⟩ := hmodule word rfl
      have htake : (word ++ byte '.' :: (name ++ rest)).takeWhile isWord = word :=
        (span_append hword fun c hc => by cases hc; decide).1
      have htext : shortening (some word) ++ (name ++ rest) =
          byte '~' :: (word ++ byte '.' :: (name ++ rest)) := by simp [shortening]
      rw [htext, shortenedLength]
      simp only [htake, List.drop_left, List.head?_cons]
      rw [if_pos ⟨trivial, hne, trivial⟩]
      simp [shortening]

/-- A printed name in backticks is read back. -/
theorem quoted?_print {module : Option Bytes} (hmodule : ∀ word ∈ module, IsRun isWord word)
    {name : Bytes} (hname : IsRun isReferenceByte name) (rest : Bytes) :
    quoted? (quote (shortening module ++ name) ++ rest) =
      some { value := shortening module ++ name, lead := 1
             length := (quote (shortening module ++ name)).length } := by
  have htext : quote (shortening module ++ name) ++ rest =
      backtick :: (shortening module ++ (name ++ backtick :: rest)) := by simp [quote]
  have hname' : (name ++ backtick :: rest).takeWhile isReferenceByte = name :=
    (span_append hname.2 fun c hc => by cases hc; decide).1
  have hlength : (shortening module).length + name.length = (shortening module ++ name).length :=
    List.length_append.symm
  have hsplit : shortening module ++ (name ++ backtick :: rest) =
      (shortening module ++ name) ++ backtick :: rest := (List.append_assoc _ _ _).symm
  rw [htext, quoted?]
  simp only [shortenedLength_print hmodule hname, List.drop_left, hname', hlength]
  rw [hsplit, List.drop_left, List.take_left, if_pos ⟨trivial, hname.1, rfl⟩]
  simp [quote, Nat.add_assoc]

/-- Only the domain could be taken for the domain of another word. -/
theorem startsWith_domain {role : Bytes} (hrole : IsRun isWord role) (hdomain : role ≠ ascii "py")
    (rest : Bytes) : startsWith (role ++ byte ':' :: rest) (ascii "py:") = false := by
  rw [startsWith, ← Bool.not_eq_true, List.isPrefixOf_iff_prefix]
  rintro ⟨more, hmore⟩
  have htake : (ascii "py:" ++ more).takeWhile isWord = role := by
    rw [hmore]
    exact (span_append hrole.2 fun c hc => by cases hc; decide).1
  exact hdomain (htake.symm.trans rfl)

theorem rolePart_print {role : Bytes} (h : IsRole role) (rest : Bytes) :
    rolePart (role ++ byte ':' :: rest) = role ∧ hasRole (role ++ byte ':' :: rest) = true := by
  have hword {word : Bytes} (hrun : IsRun isWord word) :
      (word ++ byte ':' :: rest).takeWhile isWord = word ∧
        (word ++ byte ':' :: rest).head?.any isWord = true := by
    obtain ⟨c, r, rfl⟩ := List.exists_cons_of_ne_nil hrun.1
    exact ⟨(span_append hrun.2 fun c hc => by cases hc; decide).1, hrun.2 c List.mem_cons_self⟩
  rcases h with ⟨word, rfl, hrun⟩ | ⟨hrun, hdomain⟩
  · obtain ⟨htake, hany⟩ := hword hrun
    have hdrop : (ascii "py:" ++ word ++ byte ':' :: rest).drop 3 = word ++ byte ':' :: rest := by
      rw [List.append_assoc]
      exact List.drop_left' rfl
    have hstart : startsWith (ascii "py:" ++ word ++ byte ':' :: rest) (ascii "py:") = true := by
      rw [startsWith, List.isPrefixOf_iff_prefix, List.append_assoc]
      exact List.prefix_append _ _
    rw [rolePart, hasRole, hstart]
    simp only [if_true, hdrop, htake]
    refine ⟨?_, hany⟩
    exact List.take_left' (by rw [List.length_append]; rfl)
  · obtain ⟨htake, hany⟩ := hword hrun
    rw [rolePart, hasRole, startsWith_domain hrun hdomain]
    simp only [Bool.false_eq_true, if_false, List.drop_zero, Nat.zero_add, htake]
    exact ⟨List.take_left, hany⟩

/-- The reference reads as the name. -/
structure Reads (reference : Reference) (name : NameText) : Prop where
  value : reference.value = name.value
  role : reference.role = name.role?
  length : reference.length = name.print.length
  plain : reference.plain = name.isPlain

/-- A printed name is read back: a bare one in front of what could not be part of it. -/
theorem ofText?_print {name : NameText} (h : name.Sound) {rest : Bytes}
    (hrest : ∀ c ∈ rest.head?, isReferenceByte c = false) :
    ∃ reference, ofText? (name.print ++ rest) = some reference ∧ reference.Reads name := by
  cases name with
  | plain name =>
      obtain ⟨hne, hname⟩ := h
      have htake := (span_append hname hrest).1
      obtain ⟨c, r, rfl⟩ := List.exists_cons_of_ne_nil hne
      obtain ⟨-, hcolon, hquote, -⟩ := isReferenceByte_plain (hname c List.mem_cons_self)
      rw [print, List.cons_append, ofText?, if_neg hcolon, if_neg hquote, ← List.cons_append]
      simp only [htake]
      exact ⟨_, if_neg hne, rfl, rfl, rfl, rfl⟩
  | quoted role module name =>
      obtain ⟨hrole, hmodule, hname⟩ := h
      cases role with
      | none =>
          have hquote : ofText? (quote (shortening module ++ name) ++ rest) =
              quoted? (quote (shortening module ++ name) ++ rest) := by
            rw [quote, List.cons_append, ofText?, if_neg (by decide), if_pos rfl]
          exact ⟨_, hquote.trans (quoted?_print hmodule hname rest), rfl, rfl, rfl, rfl⟩
      | some role =>
          obtain ⟨hpart, hhas⟩ :=
            rolePart_print (hrole role rfl) (quote (shortening module ++ name) ++ rest)
          have htext : (quoted (some role) module name).print ++ rest =
              byte ':' :: (role ++ byte ':' :: (quote (shortening module ++ name) ++ rest)) := by
            simp [print]
          have hdrop : (role ++ byte ':' :: (quote (shortening module ++ name) ++ rest)).drop
              (role.length + 1) = quote (shortening module ++ name) ++ rest := by
            rw [← List.drop_drop, List.drop_left]
            rfl
          rw [htext, ofText?, if_pos rfl]
          simp only [hpart, hhas, hdrop, List.drop_left, List.head?_cons, beq_self_eq_true,
            Bool.and_self, if_true, quoted?_print hmodule hname rest, Option.map_some]
          refine ⟨_, rfl, rfl, rfl, ?_, rfl⟩
          simp only [print, List.length_cons, List.length_append]
          omega

end Reference

/-! ### Lines of references -/

namespace NameText

/-- Names behind commas. -/
def printMore (names : List NameText) : Bytes := names.flatMap fun name => ascii ", " ++ name.print

theorem printMore_cons (name : NameText) (names : List NameText) (rest : Bytes) :
    printMore (name :: names) ++ rest =
      byte ',' :: (spaces 1 ++ (name.print ++ (printMore names ++ rest))) := by
  rw [printMore, List.flatMap_cons, List.append_assoc, List.append_assoc, ← printMore]
  rfl

/-- A printed name does not begin with whitespace. -/
theorem Sound.exists_cons {name : NameText} (h : name.Sound) :
    ∃ c r, name.print = c :: r ∧ isSpace c = false := by
  cases name with
  | plain name =>
      obtain ⟨c, r, rfl⟩ := List.exists_cons_of_ne_nil h.1
      exact ⟨c, r, rfl, (Reference.isReferenceByte_plain (h.2 c List.mem_cons_self)).1⟩
  | quoted role module name =>
      cases role with
      | none => exact ⟨_, _, rfl, by decide⟩
      | some role => exact ⟨_, _, rfl, by decide⟩

theorem Sound.leading_append {name : NameText} (h : name.Sound) (rest : Bytes) :
    leading (name.print ++ rest) = 0 := by
  obtain ⟨c, r, hprint, hc⟩ := h.exists_cons
  rw [hprint, leading, List.cons_append, List.takeWhile_cons_of_neg (by simp [hc])]
  rfl

theorem Sound.stripStart_append {name : NameText} (h : name.Sound) (rest : Bytes) :
    stripStart (name.print ++ rest) = name.print ++ rest := by
  rw [← drop_leading, h.leading_append, List.drop_zero]

/-- Behind a name stands a comma or a space. -/
theorem head?_printMore (names : List NameText) {rest : Bytes}
    (hrest : ∀ c ∈ rest.head?, c = space) :
    ∀ c ∈ (printMore names ++ rest).head?, isReferenceByte c = false := by
  intro c hc
  cases names with
  | nil =>
      rw [hrest c hc]
      decide
  | cons name names =>
      rw [printMore_cons] at hc
      cases hc
      decide

end NameText

namespace References

open NameText

/-- Names behind commas are read back, up to what follows them. -/
theorem more_print {names : List NameText} (h : ∀ name ∈ names, name.Sound) {rest : Bytes}
    (hrest : ∀ c ∈ rest.head?, c = space) (offset : Nat) :
    (more offset (printMore names ++ rest)).offset = offset + (printMore names).length ∧
      (more offset (printMore names ++ rest)).rest = rest ∧
      List.Forall₂ (fun found name => Reference.Reads found.2 name)
        (more offset (printMore names ++ rest)).found names := by
  induction names generalizing offset with
  | nil =>
      rw [show printMore [] ++ rest = rest from rfl]
      cases rest with
      | nil =>
          rw [more]
          exact ⟨rfl, rfl, .nil⟩
      | cons c r =>
          obtain rfl : c = space := hrest c rfl
          rw [more, if_neg (fun hcomma => absurd hcomma.1 (by decide))]
          exact ⟨rfl, rfl, .nil⟩
  | cons name names ih =>
      have hname := h name List.mem_cons_self
      obtain ⟨reference, hread, hreads⟩ :=
        Reference.ofText?_print hname (head?_printMore names hrest)
      have hdrop : (name.print ++ (printMore names ++ rest)).drop reference.length =
          printMore names ++ rest := List.drop_left' hreads.length.symm
      have hleading : leading (spaces 1 ++ (name.print ++ (printMore names ++ rest))) = 1 := by
        rw [leading_spaces_append, hname.leading_append]
      obtain ⟨hoffset, hbehind, hfound⟩ :=
        ih (fun n hn => h n (List.mem_cons_of_mem name hn)) (offset + 1 + 1 + reference.length)
      rw [printMore_cons, more, if_pos ⟨rfl, by rw [hleading]; exact Nat.one_pos⟩,
        stripStart_spaces_append, hname.stripStart_append, hread]
      simp only [hleading, hdrop]
      refine ⟨?_, hbehind, .cons hreads hfound⟩
      have hlength := congrArg List.length (printMore_cons name names [])
      simp only [List.append_nil, List.length_cons, List.length_append, length_spaces] at hlength
      rw [hoffset, hlength, hreads.length]
      omega

/-- A line of names is read back, up to what follows them. -/
theorem ofLine?_print {first : NameText} (hfirst : first.Sound) {names : List NameText}
    (h : ∀ name ∈ names, name.Sound) {rest : Bytes} (hrest : ∀ c ∈ rest.head?, c = space) :
    ∃ line, ofLine? (first.print ++ (printMore names ++ rest)) = some line ∧
      line.offset = (first.print ++ printMore names).length ∧ line.rest = rest ∧
      List.Forall₂ (fun found name => Reference.Reads found.2 name) line.found
        (first :: names) := by
  obtain ⟨reference, hread, hreads⟩ :=
    Reference.ofText?_print hfirst (head?_printMore names hrest)
  have hdrop : (first.print ++ (printMore names ++ rest)).drop reference.length =
      printMore names ++ rest := List.drop_left' hreads.length.symm
  obtain ⟨hoffset, hbehind, hfound⟩ := more_print h hrest (0 + reference.length)
  rw [ofLine?, hfirst.stripStart_append, hread, Option.map_some]
  simp only [hfirst.leading_append, hdrop]
  refine ⟨_, rfl, ?_, hbehind, .cons hreads hfound⟩
  rw [hoffset, hreads.length, List.length_append, Nat.zero_add]

end References

end DocLint
