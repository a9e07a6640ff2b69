import DocLint.Docstring.Line

/-!
# Type declarations

The type of a parameter is a list of types, separated by commas and by the word `or`.  Nothing is
split inside brackets, and a choice set in braces stands for itself.  The word `optional` is no type:
it is counted.

* `groupLength_pos`, `separatorLength_pos`, `length_afterSegment_lt`: every round of the splitting
  reads something.
-/

namespace DocLint

open Bytes

/-- A place in a type declaration; the bytes already read are kept nearest first. -/
structure TypeCursor where
  seen : Bytes := []
  rest : Bytes
deriving DecidableEq, Repr

namespace TypeCursor

/-- The place `n` bytes further on. -/
def skip (c : TypeCursor) (n : Nat) : TypeCursor :=
  ⟨(c.rest.take n).reverse ++ c.seen, c.rest.drop n⟩

/-- The place behind the whitespace. -/
def skipBlank (c : TypeCursor) : TypeCursor := c.skip (leading c.rest)

/-- The number of bytes already read. -/
def offset (c : TypeCursor) : Nat := c.seen.length

@[simp] theorem rest_skip (c : TypeCursor) (n : Nat) : (c.skip n).rest = c.rest.drop n := rfl

@[simp] theorem skip_zero (c : TypeCursor) : c.skip 0 = c := by simp [skip]

end TypeCursor

namespace TypeList

/-- The word that is counted instead of listed. -/
def optionalWord : Bytes := ascii "optional"

/-- The text begins with the word `or`, given the byte in front of it. -/
def isConnective (last : Option UInt8) (s : Bytes) : Bool :=
  startsWith s (ascii "or") && last.all isSpace && (s.drop 2).head?.all isSpace

/-- The length of the bracket group that the text begins with: up to the bracket that closes it, or
all of the text. -/
def groupLength : Nat → Bytes → Nat
  | _, [] => 0
  | depth, c :: r =>
    if isOpenBracket c then groupLength (depth + 1) r + 1
    else if isCloseBracket c then if depth ≤ 1 then 1 else groupLength (depth - 1) r + 1
    else groupLength depth r + 1

/-- The length of the text before the next separator outside brackets, given the bracket depth and
the byte in front. -/
def plainLength : Nat → Option UInt8 → Bytes → Nat
  | _, _, [] => 0
  | depth, last, c :: r =>
    -- Braces count as brackets here: only a segment that begins with one is a choice set.
    if isOpenBracket c then plainLength (depth + 1) (some c) r + 1
    else if isCloseBracket c then plainLength (depth - 1) (some c) r + 1
    else if depth = 0 ∧ (c = byte ',' ∨ isConnective last (c :: r)) then 0
    else plainLength depth (some c) r + 1

/-- The length of the first segment: a choice set, or the text before the next separator. -/
def segmentLength (c : TypeCursor) : Nat :=
  if c.rest.head? = some (byte '\x7b') then groupLength 0 c.rest
  else plainLength 0 c.seen.head? c.rest

/-- The length of the separator here: a comma, the word `or`, or none. -/
def separatorLength (c : TypeCursor) : Nat :=
  if c.rest.head? = some (byte ',') then 1
  else if isConnective c.seen.head? c.rest then 2
  else 0

/-- A group has at least the byte that it begins with. -/
theorem groupLength_pos {depth : Nat} {s : Bytes} (h : s ≠ []) : 0 < groupLength depth s := by
  cases s with
  | nil => contradiction
  | cons c r =>
    unfold groupLength
    split
    · omega
    · split
      · split <;> omega
      · omega

/-- A segment is empty only where a separator stands. -/
theorem separatorLength_pos {c : TypeCursor} (h : c.rest ≠ []) (hzero : segmentLength c = 0) :
    0 < separatorLength c := by
  unfold segmentLength at hzero
  split at hzero
  · exact absurd hzero (Nat.ne_of_gt (groupLength_pos h))
  · unfold separatorLength
    cases hrest : c.rest with
    | nil => contradiction
    | cons d r =>
      rw [hrest] at hzero
      unfold plainLength at hzero
      split at hzero
      · omega
      · split at hzero
        · omega
        · split at hzero
          next hsep =>
            split
            · omega
            next hcomma =>
              rcases hsep.2 with hd | hd
              · simp [hd] at hcomma
              · simp [hd]
          · omega

/-- Where the next segment is looked for, after one that begins at `c`. -/
def afterSegment (c : TypeCursor) : TypeCursor :=
  let behind := (c.skip (segmentLength c)).skipBlank
  behind.skip (separatorLength behind)

/-- A round reads something. -/
theorem length_afterSegment_lt {c : TypeCursor} (h : c.rest ≠ [])
    (hfirst : leading c.rest = 0) : (afterSegment c).rest.length < c.rest.length := by
  have hpos : 0 < c.rest.length := List.length_pos_iff.2 h
  by_cases hzero : segmentLength c = 0
  · have hsep := separatorLength_pos h hzero
    simp only [afterSegment, hzero, TypeCursor.skip_zero, TypeCursor.skipBlank, hfirst,
      TypeCursor.rest_skip, List.length_drop]
    omega
  · simp only [afterSegment, TypeCursor.skipBlank, TypeCursor.rest_skip, List.length_drop]
    omega

/-- No whitespace is left in front after it has been passed over. -/
theorem leading_skipBlank (c : TypeCursor) : leading c.skipBlank.rest = 0 := by
  have h : ∀ s : Bytes, leading (s.drop (leading s)) = 0 := by
    intro s
    induction s with
    | nil => rfl
    | cons d r ih =>
      by_cases hd : isSpace d = true
      · simpa [leading, hd] using ih
      · simp [leading, hd]
  exact h c.rest

/-- The segments between the separators, each with its offset. -/
def segments (c : TypeCursor) : List (Nat × Bytes) :=
  let here := c.skipBlank
  if here.rest = [] then []
  else (here.offset, here.rest.take (segmentLength here)) :: segments (afterSegment here)
termination_by c.rest.length
decreasing_by
  rename_i h
  have hlt := length_afterSegment_lt h (leading_skipBlank c)
  have hle : c.skipBlank.rest.length ≤ c.rest.length := by simp [TypeCursor.skipBlank]
  exact Nat.lt_of_lt_of_le hlt hle

/-- The type that a segment at some offset holds: its text without whitespace at the ends. -/
def ofSegment (origin : Position) (segment : Nat × Bytes) : Fragment :=
  let value := strip segment.2
  let first := segment.1 + leading segment.2
  ⟨value, ⟨origin.right first, origin.right (first + value.length)⟩⟩

end TypeList

/-- The types of a declaration, and how often it says `optional`. -/
structure TypeList where
  types : List Fragment
  optionalCount : UInt32
deriving DecidableEq, Repr

namespace TypeList

/-- The types in the text, whose first byte stands at `origin`; `count` is what has been counted
before. -/
def ofText (text : Bytes) (origin : Position) (count : UInt32) : TypeList :=
  let found := (segments { rest := text }).map (ofSegment origin)
  let listed := found.filter fun type => !type.value.isEmpty
  { types := listed.filter fun type => type.value != optionalWord
    optionalCount :=
      count + UInt32.ofNat (listed.countP fun type => type.value == optionalWord) }

end TypeList

end DocLint
