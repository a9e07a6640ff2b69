import DocLint.Source.Declaration
import DocLint.Source.TokenCursor

/-!
# Parameter lists of function headers

The tokens between the parentheses of a header are split at the commas outside brackets.  An item is
a marker (`*` or `/` alone), which declares nothing, or a parameter with an optional annotation and
an optional default, both kept as source text.

The text of some tokens reaches from the first to the end of the last.  A token that the layout implies
has no bytes, and so no place in the source: a text between two such tokens is empty, but there is none
between such a token and one of the source.  A list that runs to the end of the file takes in the
newline that is implied there.

* `mem_splitItems_ne_nil`: no item is empty.
* `isSevered_of_forall`: written tokens have a text.
-/

namespace DocLint

/-- The runs of tokens between the commas outside brackets. -/
def splitCommas : Int → List Token → List (List Token)
  | _, [] => [[]]
  | depth, t :: rest =>
    if depth = 0 ∧ t.kind = .comma then [] :: splitCommas 0 rest
    else match splitCommas (depth + t.kind.nesting) rest with
      | [] => [[t]]
      | item :: items => (t :: item) :: items

/-- The items of a parameter list. -/
def splitItems (tokens : List Token) : List (List Token) :=
  (splitCommas 0 tokens).filter fun item => !item.isEmpty

/-- The source text from the first token to the end of the last, which must not be severed. -/
def sourceText? (source : Bytes) (tokens : List Token) : Option Bytes :=
  match tokens.head?, tokens.getLast? with
  | some first, some last =>
    if last.text.isEmpty then some []
    else some ((source.drop first.offset).take (last.offset + last.text.length - first.offset))
  | _, _ => none

/-- Only one of the first and the last token has bytes, so that there is no text between them. -/
def isSevered (tokens : List Token) : Bool :=
  match tokens.head?, tokens.getLast? with
  | some first, some last => first.text.isEmpty != last.text.isEmpty
  | _, _ => false

/-- Written tokens have a text. -/
theorem isSevered_of_forall {tokens : List Token} (h : ∀ t ∈ tokens, t.text ≠ []) :
    isSevered tokens = false := by
  unfold isSevered
  split
  next first last hfirst hlast =>
    have hfirst := h first (List.mem_of_head? hfirst)
    have hlast := h last (List.mem_of_getLast? hlast)
    rw [List.isEmpty_eq_false_iff.2 hfirst, List.isEmpty_eq_false_iff.2 hlast]
    rfl
  · rfl

/-- The number of tokens before an equals sign outside brackets. -/
def annotationLength : Int → List Token → Nat
  | _, [] => 0
  | depth, t :: rest =>
    if depth = 0 ∧ t.kind = .assign then 0 else annotationLength (depth + t.kind.nesting) rest + 1

namespace Parameter

/-- The kind that the first token of an item announces, and the tokens behind it. -/
def kindOf (item : List Token) : ParameterKind × List Token :=
  match item with
  | [] => (.positional, [])
  | t :: rest =>
    if t.kind = .star then (.varArgs, rest)
    else if t.kind = .doubleStar then (.varKeywords, rest)
    else (.positional, t :: rest)

/-- The tokens of the annotation behind the name, and the tokens behind them. -/
def annotationRun (tokens : List Token) : List Token × List Token :=
  match tokens with
  | [] => ([], [])
  | t :: rest =>
    if t.kind = .colon then
      let length := annotationLength 0 rest
      (rest.take length, rest.drop length)
    else ([], t :: rest)

/-- The tokens of the default behind the name and the annotation. -/
def defaultRun (tokens : List Token) : List Token :=
  match tokens with
  | [] => []
  | t :: rest => if t.kind = .assign then rest else []

/-- From the first token to the end of the last. -/
def itemSpan (item : List Token) : Span :=
  match item.head?, item.getLast? with
  | some first, some last => ⟨first.position, last.stop⟩
  | _, _ => {}

/-- The parameter that an item declares: none for a marker, a fault where a name is missing or a text
is severed. -/
def ofItem (source : Bytes) (item : List Token) : Except Fault (Option Parameter) :=
  let (kind, named) := kindOf item
  match named with
  | [] => .ok none
  | t :: rest =>
    if t.kind = .slash ∧ rest = [] then .ok none
    else if t.kind = .identifier then
      let (typing, behind) := annotationRun rest
      let value := defaultRun behind
      if isSevered typing || isSevered value then .error ⟨t.position, .severedText⟩
      else
        .ok (some { name := t.text, span := itemSpan item, kind
                    declaredType := sourceText? source typing
                    defaultValue := sourceText? source value })
    else .error ⟨t.position, .expectedParameterName t.kind⟩

/-- The parameters that some items declare. -/
def ofItems (source : Bytes) (items : List (List Token)) : List Parameter :=
  items.filterMap fun item =>
    match ofItem source item with
    | .ok parameter => parameter
    | .error _ => none

/-- The faults of some items. -/
def faultsOf (source : Bytes) (items : List (List Token)) : List Fault :=
  items.filterMap fun item =>
    match ofItem source item with
    | .ok _ => none
    | .error fault => some fault

end Parameter

/-- No item is empty. -/
theorem mem_splitItems_ne_nil {tokens item : List Token} (h : item ∈ splitItems tokens) :
    item ≠ [] := by
  simp only [splitItems, List.mem_filter] at h
  simpa using h.2

end DocLint
