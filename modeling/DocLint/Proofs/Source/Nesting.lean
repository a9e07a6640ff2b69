import DocLint.Proofs.Source.Sites
import DocLint.Proofs.Source.TokenText

/-!
# How declarations are nested

The parts of declarations are extents of the source text.  Functions, classes and constants stand one
behind the other, and so do the methods of a class, inside of the class; the module contains them all.
In each of them the name comes first, then the parameters of the header, and then the docstring.

The places of an extent are offsets, and then positions: in a source text that is small enough for
positions, these are in the order of the offsets.

* `Extent`, `Layout`, `FileLayout`: where the parts of declarations stand.
* `Layout.IsOrdered`, `IsArranged`, `FileLayout.IsNested`: how they are ordered and nested.
* `Defines.exists_layout`, `Assigns.exists_layout`: one declaration.
* `Holds.exists_methods`, `Holds.exists_groups`: the declarations of a class and of a file.
* `ofSource_isNested`: the declarations of a source text.
-/

namespace DocLint

open Scanner Bytes

/-! ### Layouts -/

/-- From one place up to, and without, another one. -/
structure Extent (α : Type) where
  start : α
  stop : α

/-- Where a declaration stands, and its parts: its name, its docstring and the parameters of its own
header. -/
structure Layout (α : Type) where
  kind : DeclarationKind
  whole : Extent α
  name : Option (Extent α)
  docstring : Option (Extent α)
  parameters : List (Extent α)

/-- Where the declarations of a file stand: the module, and the others with their methods. -/
structure FileLayout (α : Type) where
  file : Layout α
  groups : List (Layout α × List (Layout α))

section Maps

variable {α β : Type}

/-- The same extent between other kinds of places. -/
def Extent.map (f : α → β) (e : Extent α) : Extent β := ⟨f e.start, f e.stop⟩

/-- The same layout with other kinds of places. -/
def Layout.map (f : α → β) (l : Layout α) : Layout β where
  kind := l.kind
  whole := l.whole.map f
  name := l.name.map (Extent.map f)
  docstring := l.docstring.map (Extent.map f)
  parameters := l.parameters.map (Extent.map f)

/-- Every declaration, each one with its methods behind it. -/
def Layout.listOf (groups : List (Layout α × List (Layout α))) : List (Layout α) :=
  groups.flatMap fun g => g.1 :: g.2

/-- The same group with other kinds of places. -/
def Layout.mapGroup (f : α → β) (g : Layout α × List (Layout α)) : Layout β × List (Layout β) :=
  (g.1.map f, g.2.map (Layout.map f))

/-- The module, and every declaration. -/
def FileLayout.layouts (f : FileLayout α) : List (Layout α) := f.file :: Layout.listOf f.groups

/-- The same layouts with other kinds of places. -/
def FileLayout.map (f : α → β) (file : FileLayout α) : FileLayout β :=
  ⟨file.file.map f, file.groups.map (Layout.mapGroup f)⟩

theorem Layout.listOf_mapGroup (f : α → β) (groups : List (Layout α × List (Layout α))) :
    listOf (groups.map (mapGroup f)) = (listOf groups).map (Layout.map f) := by
  rw [listOf, listOf, List.flatMap_map, List.map_flatMap]
  rfl

end Maps

/-- The extent of a span. -/
def Span.extent (s : Span) : Extent Position := ⟨s.start, s.stop⟩

/-- The layout of a declaration.  The parameters of a class are those of another header. -/
def Declaration.layout (d : Declaration) : Layout Position where
  kind := d.form.kind
  whole := d.span.extent
  name := d.name?.map fun name => name.span.extent
  docstring := d.docstring.map fun literal => ⟨literal.start, literal.stop⟩
  parameters := (if d.form.isCallable then d.parameters else []).map fun p => p.span.extent

/-! ### Order -/

section Order

variable {α : Type} (before : α → α → Prop)

/-- The extent ends in front of the other one, or where that begins. -/
def Extent.EndsBefore (a b : Extent α) : Prop := ¬ before b.start a.stop

/-- The extent lies inside of the other one. -/
def Extent.IsInside (a b : Extent α) : Prop := ¬ before a.start b.start ∧ ¬ before b.stop a.stop

/-- The name stands in the declaration, and behind it the parameters and the docstring; that of a
constant stands below. -/
structure Layout.IsOrdered (l : Layout α) : Prop where
  whole : before l.whole.start l.whole.stop
  name : ∃ name, l.name = some name ∧ before name.start name.stop ∧ name.IsInside before l.whole
  parameters : ∀ name ∈ l.name, ∀ p ∈ l.parameters,
    name.EndsBefore before p ∧ ¬ before p.stop p.start ∧ p.IsInside before l.whole
  docstring : l.kind ≠ .constantKind → ∀ name ∈ l.name, ∀ literal ∈ l.docstring,
    name.EndsBefore before literal ∧ before literal.start literal.stop ∧
      literal.IsInside before l.whole

/-- Functions, classes and constants stand one behind the other, and the methods of a class stand one
behind the other inside of the class. -/
structure IsArranged (groups : List (Layout α × List (Layout α))) : Prop where
  ordered : ∀ g ∈ groups, ∀ l ∈ g.1 :: g.2, l.IsOrdered before
  heads : ∀ g ∈ groups,
    g.1.kind = .classKind ∨ g.1.kind = .functionKind ∨ g.1.kind = .constantKind
  methods : ∀ g ∈ groups, ∀ m ∈ g.2,
    g.1.kind = .classKind ∧ m.kind = .methodKind ∧ m.whole.IsInside before g.1.whole
  heads_apart : groups.Pairwise fun g h => g.1.whole.EndsBefore before h.1.whole
  methods_apart : ∀ g ∈ groups, g.2.Pairwise fun m n => m.whole.EndsBefore before n.whole

/-- The declarations of a file are arranged inside of the module. -/
structure FileLayout.IsNested (f : FileLayout α) : Prop where
  module_kind : f.file.kind = .moduleKind
  inside : ∀ g ∈ f.groups, ∀ l ∈ g.1 :: g.2, l.whole.IsInside before f.file.whole
  arranged : IsArranged before f.groups

namespace IsArranged

variable {before}

theorem nil : IsArranged before [] := ⟨by simp, by simp, by simp, .nil, by simp⟩

/-- A declaration with its methods. -/
theorem group {l : Layout α} {methods : List (Layout α)} (ordered : l.IsOrdered before)
    (head : l.kind = .classKind ∨ l.kind = .functionKind ∨ l.kind = .constantKind)
    (inside : ∀ m ∈ methods, m.IsOrdered before ∧ l.kind = .classKind ∧ m.kind = .methodKind ∧
      m.whole.IsInside before l.whole)
    (apart : methods.Pairwise fun m n => m.whole.EndsBefore before n.whole) :
    IsArranged before [(l, methods)] where
  ordered := List.forall_mem_singleton.2
    (List.forall_mem_cons.2 ⟨ordered, fun m hm => (inside m hm).1⟩)
  heads := List.forall_mem_singleton.2 head
  methods := List.forall_mem_singleton.2 fun m hm => (inside m hm).2
  heads_apart := List.pairwise_singleton _ _
  methods_apart := List.forall_mem_singleton.2 apart

theorem append {groups others : List (Layout α × List (Layout α))} (h : IsArranged before groups)
    (hothers : IsArranged before others)
    (apart : ∀ g ∈ groups, ∀ g' ∈ others, g.1.whole.EndsBefore before g'.1.whole) :
    IsArranged before (groups ++ others) where
  ordered := List.forall_mem_append.2 ⟨h.ordered, hothers.ordered⟩
  heads := List.forall_mem_append.2 ⟨h.heads, hothers.heads⟩
  methods := List.forall_mem_append.2 ⟨h.methods, hothers.methods⟩
  heads_apart := List.pairwise_append.2 ⟨h.heads_apart, hothers.heads_apart, apart⟩
  methods_apart := List.forall_mem_append.2 ⟨h.methods_apart, hothers.methods_apart⟩

end IsArranged

end Order

/-! ### Offsets and positions -/

/-- The position of an offset in a source text. -/
def Position.ofOffset (source : Bytes) (offset : Nat) : Position := .after {} (source.take offset)

namespace Position

theorem compare_eq_lt_iff {p q : Position} : p.compare q = .lt ↔
    p.line.toNat < q.line.toNat ∨ p.line.toNat = q.line.toNat ∧ p.column.toNat < q.column.toNat := by
  rw [Position.compare, Ordering.then_eq_lt, Std.compare_eq_lt, Std.compare_eq_iff_eq,
    Std.compare_eq_lt, UInt32.lt_iff_toNat_lt, UInt32.lt_iff_toNat_lt, ← UInt32.toNat_inj]

variable {source : Bytes} {i j : Nat}

/-- Further on in the source text the position is a later one. -/
theorem ofOffset_compare (hsize : source.length < 2 ^ 31) (hij : i < j) (hj : j ≤ source.length) :
    (ofOffset source i).compare (ofOffset source j) = .lt := by
  obtain ⟨middle, hmiddle⟩ := List.take_prefix_take_left (l := source) (Nat.le_of_lt hij)
  have hlength := congrArg List.length hmiddle
  rw [List.length_append, List.length_take, List.length_take] at hlength
  have hplace {k : Nat} (hk : k ≤ source.length) : (ofOffset source k).IsAt source k := by
    have hat := after_isAt (List.take_append_drop k source).symm hsize
    rwa [List.length_take, Nat.min_eq_left hk] at hat
  obtain ⟨hline, hcolumn⟩ := hplace (Nat.le_of_lt (Nat.lt_of_lt_of_le hij hj))
  obtain ⟨hline', hcolumn'⟩ := hplace hj
  rw [← hmiddle, List.count_append] at hline'
  rw [compare_eq_lt_iff, hline, hline', hcolumn, hcolumn', ← hmiddle]
  by_cases hnewline : newline ∈ middle
  · -- A newline on the way leads to a lower line.
    have hcount : 0 < middle.count newline := List.count_pos_iff.2 hnewline
    omega
  · have hall : ∀ c ∈ middle.reverse, (c != newline) = true := fun c hc => by
      simpa using fun heq : c = newline => hnewline (heq ▸ List.mem_reverse.1 hc)
    rw [List.count_eq_zero.2 hnewline, List.reverse_append,
      List.takeWhile_append_of_pos hall, List.length_append, List.length_reverse]
    omega

theorem ofOffset_compare_iff (hsize : source.length < 2 ^ 31) (hi : i ≤ source.length)
    (hj : j ≤ source.length) :
    (ofOffset source i).compare (ofOffset source j) = .lt ↔ i < j := by
  refine ⟨fun h => ?_, fun hij => ofOffset_compare hsize hij hj⟩
  rcases Nat.lt_trichotomy i j with hij | rfl | hji
  · exact hij
  · rw [compare_eq_lt_iff] at h
    omega
  · have hback := ofOffset_compare hsize hji hi
    rw [compare_eq_lt_iff] at h hback
    omega

end Position

section Monotone

variable {β : Type} {before : β → β → Prop} {f : Nat → β} {n : Nat}
  (hf : ∀ i ≤ n, ∀ j ≤ n, (before (f i) (f j) ↔ i < j))
include hf

theorem Extent.EndsBefore.map {a b : Extent Nat} (h : a.EndsBefore (· < ·) b) (ha : a.stop ≤ n)
    (hb : b.start ≤ n) : (a.map f).EndsBefore before (b.map f) :=
  fun hbefore => h ((hf _ hb _ ha).1 hbefore)

theorem Extent.IsInside.map {a b : Extent Nat} (h : a.IsInside (· < ·) b) (ha : a.start ≤ n)
    (hb : b.stop ≤ n) : (a.map f).IsInside before (b.map f) := by
  have hstart := Nat.le_of_not_lt h.1
  have hstop := Nat.le_of_not_lt h.2
  exact ⟨fun hbefore => h.1 ((hf _ ha _ (by omega)).1 hbefore),
    fun hbefore => h.2 ((hf _ hb _ (by omega)).1 hbefore)⟩

theorem Layout.IsOrdered.map {l : Layout Nat} (h : l.IsOrdered (· < ·)) (hn : l.whole.stop ≤ n) :
    (l.map f).IsOrdered before := by
  have hinside {e : Extent Nat} (he : e.IsInside (· < ·) l.whole) (hle : ¬ e.stop < e.start) :
      e.start ≤ n ∧ e.stop ≤ n ∧ (e.map f).IsInside before (l.map f).whole := by
    have hstop := Nat.le_of_not_lt he.2
    exact ⟨by omega, by omega, he.map hf (by omega) hn⟩
  obtain ⟨name, hname, hlt, hwithin⟩ := h.name
  obtain ⟨hstart, hstop, hname'⟩ := hinside hwithin (Nat.lt_asymm hlt)
  have hsome : (l.map f).name = some (name.map f) := congrArg (Option.map _) hname
  refine ⟨(hf _ (Nat.le_of_lt (Nat.lt_of_lt_of_le h.whole hn)) _ hn).2 h.whole,
    ⟨name.map f, hsome, (hf _ hstart _ hstop).2 hlt, hname'⟩, fun name' hname' p hp => ?_,
    fun hkind name' hname' literal hliteral => ?_⟩
  · obtain ⟨e, he, rfl⟩ := List.mem_map.1 hp
    obtain ⟨hbehind, hle, hwithin⟩ := h.parameters name hname e he
    obtain ⟨hestart, hestop, hmapped⟩ := hinside hwithin hle
    cases hsome.symm.trans hname'
    exact ⟨hbehind.map hf hstop hestart, fun hbefore => hle ((hf _ hestop _ hestart).1 hbefore),
      hmapped⟩
  · obtain ⟨e, he, rfl⟩ := Option.map_eq_some_iff.1 hliteral
    obtain ⟨hbehind, hlt, hwithin⟩ := h.docstring hkind name hname e he
    obtain ⟨hestart, hestop, hmapped⟩ := hinside hwithin (Nat.lt_asymm hlt)
    cases hsome.symm.trans hname'
    exact ⟨hbehind.map hf hstop hestart, (hf _ hestart _ hestop).2 hlt, hmapped⟩

/-- Where places are in the order of offsets, what is nested by offsets is nested. -/
theorem FileLayout.IsNested.map {file : FileLayout Nat} (h : file.IsNested (· < ·))
    (hn : file.file.whole.stop ≤ n) : (file.map f).IsNested before := by
  have hstop {g : Layout Nat × List (Layout Nat)} (hg : g ∈ file.groups) {l : Layout Nat}
      (hl : l ∈ g.1 :: g.2) : l.whole.start ≤ n ∧ l.whole.stop ≤ n := by
    have hle := Nat.le_of_not_lt (h.inside g hg l hl).2
    have hlt := (h.arranged.ordered g hg l hl).whole
    omega
  -- A statement about the mapped layouts is one about the layouts.
  have hall {P : Layout β → Prop} {g : Layout Nat × List (Layout Nat)}
      (hP : ∀ l ∈ g.1 :: g.2, P (l.map f)) :
      ∀ l ∈ (Layout.mapGroup f g).1 :: (Layout.mapGroup f g).2, P l :=
    fun l hl => (List.forall_mem_map (l := g.1 :: g.2)).2 hP l hl
  refine ⟨h.module_kind, List.forall_mem_map.2 fun g hg => hall fun l hl => ?_,
    List.forall_mem_map.2 fun g hg => hall fun l hl => ?_, List.forall_mem_map.2 h.arranged.heads,
    List.forall_mem_map.2 fun g hg => List.forall_mem_map.2 fun m hm => ?_, ?_,
    List.forall_mem_map.2 fun g hg => ?_⟩
  · exact (h.inside g hg l hl).map hf (hstop hg hl).1 hn
  · exact (h.arranged.ordered g hg l hl).map hf (hstop hg hl).2
  · obtain ⟨hclass, hmethod, hinside⟩ := h.arranged.methods g hg m hm
    exact ⟨hclass, hmethod, hinside.map hf (hstop hg (List.mem_cons_of_mem _ hm)).1
      (hstop hg List.mem_cons_self).2⟩
  · refine List.pairwise_map.2 (h.arranged.heads_apart.imp_of_mem fun hg hh hapart => ?_)
    exact hapart.map hf (hstop hg List.mem_cons_self).2 (hstop hh List.mem_cons_self).1
  · refine List.pairwise_map.2 ((h.arranged.methods_apart g hg).imp_of_mem fun hm hk hapart => ?_)
    exact hapart.map hf (hstop hg (List.mem_cons_of_mem _ hm)).2
      (hstop hg (List.mem_cons_of_mem _ hk)).1

end Monotone

/-! ### Tokens -/

/-- The extent of a token. -/
def Token.extent (t : Token) : Extent Nat := ⟨t.offset, t.offset + t.text.length⟩

variable {source : Bytes}

namespace Token.StandsIn

variable {t : Token} (h : t.StandsIn source)
include h

theorem position_eq : t.position = .ofOffset source t.extent.start := by
  obtain ⟨front, behind, hsource, hposition, hoffset⟩ := h
  have htake : source.take front.length = front := by rw [hsource, List.take_left]
  rw [extent, hoffset, Position.ofOffset, htake, hposition]

theorem stop_eq : t.stop = .ofOffset source t.extent.stop := by
  obtain ⟨front, behind, hsource, hposition, hoffset⟩ := h
  have htake : source.take (front.length + t.text.length) = front ++ t.text := by
    rw [hsource, ← List.append_assoc, List.take_left' (List.length_append)]
  rw [extent, hoffset, Position.ofOffset, htake, stop, hposition, Position.after_append]

theorem extent_eq : t.span.extent = t.extent.map (Position.ofOffset source) := by
  rw [span, Span.extent, Extent.map, h.position_eq, h.stop_eq]

/-- The token ends in the source text. -/
theorem stop_le : t.extent.stop ≤ source.length := by
  obtain ⟨front, behind, hsource, -, hoffset⟩ := h
  rw [extent, hoffset, hsource, List.length_append, List.length_append]
  exact Nat.add_le_add_left (Nat.le_add_right _ _) _

end Token.StandsIn

/-- The layout begins with a token of the run, and ends with a solid one. -/
def Layout.Spans (run : List Token) (l : Layout Nat) : Prop :=
  ∃ first ∈ run, ∃ last ∈ run, last.isSolid = true ∧
    l.whole = ⟨first.extent.start, last.extent.stop⟩

theorem Layout.Spans.mono {run more : List Token} {l : Layout Nat} (h : l.Spans run)
    (hmore : run ⊆ more) : l.Spans more := by
  obtain ⟨first, hfirst, last, hlast, hwhole⟩ := h
  exact ⟨first, hmore hfirst, last, hmore hlast, hwhole⟩

namespace Standing

variable {tokens front behind : List Token}

/-- A layout that spans tokens ends before a layout that spans tokens behind them. -/
theorem endsBefore (h : Standing source (front ++ behind)) {l m : Layout Nat} (hl : l.Spans front)
    (hm : m.Spans behind) : l.whole.EndsBefore (· < ·) m.whole := by
  obtain ⟨_, -, last, hlast, -, hwhole⟩ := hl
  obtain ⟨first, hfirst, _, -, -, hwhole'⟩ := hm
  rw [Extent.EndsBefore, hwhole, hwhole']
  exact Nat.not_lt_of_le (h.stop_le hlast hfirst)

/-- What is written has an extent. -/
theorem start_lt_stop (h : Standing source tokens) {t : Token} (ht : t ∈ tokens)
    (hwritten : t.kind.isWritten = true) : t.extent.start < t.extent.stop :=
  Nat.lt_add_of_pos_right (List.length_pos_iff.2 (h.spelled t ht hwritten))

/-- What is written is solid. -/
theorem isSolid (h : Standing source tokens) {t : Token} (ht : t ∈ tokens)
    (hwritten : t.kind.isWritten = true) : t.isSolid = true := by
  refine Token.isSolid_of_isPlain ?_
  have htext := h.spelled t ht hwritten
  rw [Token.isPlain, hwritten, Bool.true_and]
  simpa using htext

/-- The last solid token ends where no other one ends behind it. -/
theorem exists_last (h : Standing source tokens) (hsolid : ∃ t ∈ tokens, t.isSolid = true) :
    ∃ last ∈ tokens, last.isSolid = true ∧ fileStop tokens = last.stop ∧
      ∀ t ∈ tokens, t.isSolid = true → t.extent.stop ≤ last.extent.stop := by
  have hfind : (tokens.reverse.find? Token.isSolid).isSome = true := by simpa using hsolid
  obtain ⟨last, hlast⟩ := Option.isSome_iff_exists.1 hfind
  have hmem : last ∈ tokens := List.mem_reverse.1 (List.mem_of_find?_eq_some hlast)
  refine ⟨last, hmem, List.find?_some hlast, by rw [fileStop, hlast], fun t ht hsolid => ?_⟩
  obtain ⟨-, below, above, hsplit, hbelow⟩ := List.find?_eq_some_iff_append.1 hlast
  have htokens : tokens = (above.reverse ++ [last]) ++ below.reverse := by
    have hreverse := congrArg List.reverse hsplit
    rw [List.reverse_reverse, List.reverse_append, List.reverse_cons] at hreverse
    exact hreverse
  rw [htokens] at h ht
  rcases List.mem_append.1 ht with ht | ht
  · rcases List.mem_append.1 ht with ht | ht
    · have hle := h.left.stop_le ht (List.mem_singleton_self last)
      exact Nat.le_trans hle (Nat.le_add_right _ _)
    · rw [List.mem_singleton.1 ht]
  · have hnot := hbelow t (List.mem_reverse.1 ht)
    rw [hsolid] at hnot
    cases hnot

/-- Some consecutive tokens take up an extent. -/
theorem exists_itemSpan (h : Standing source tokens) (hne : tokens ≠ []) :
    ∃ first ∈ tokens, ∃ last ∈ tokens, first.extent.start ≤ last.extent.stop ∧
      (Parameter.itemSpan tokens).extent =
        (Extent.mk first.extent.start last.extent.stop).map (Position.ofOffset source) := by
  obtain ⟨first, rest, rfl⟩ := List.exists_cons_of_ne_nil hne
  have hlast := List.getLast?_eq_some_getLast hne
  have hmem := List.getLast_mem hne
  generalize (first :: rest).getLast hne = last at hlast hmem
  refine ⟨first, List.mem_cons_self, last, hmem, ?_, ?_⟩
  · rcases List.mem_cons.1 hmem with rfl | hmem
    · exact Nat.le_add_right _ _
    · have hle := h.uncons.stop_le (List.mem_singleton_self first) hmem
      exact Nat.le_trans (Nat.le_add_right _ _) (Nat.le_trans hle (Nat.le_add_right _ _))
  · have hstart := (h.stands first List.mem_cons_self).position_eq
    have hstop := (h.stands last hmem).stop_eq
    rw [Parameter.itemSpan, List.head?_cons, hlast]
    dsimp only [Span.extent, Extent.map]
    rw [← hstart, ← hstop]

end Standing

/-! ### Single declarations -/

/-- Values found one by one for the elements of a list. -/
theorem exists_map_eq {α β γ : Type} {g : γ → β} {f : α → β} {P : α → Prop} {xs : List γ}
    (h : ∀ x ∈ xs, ∃ a, g x = f a ∧ P a) :
    ∃ as : List α, xs.map g = as.map f ∧ ∀ a ∈ as, P a := by
  induction xs with
  | nil => exact ⟨[], rfl, by simp⟩
  | cons x xs ih =>
      obtain ⟨a, hx, ha⟩ := h x List.mem_cons_self
      obtain ⟨as, hxs, has⟩ := ih fun y hy => h y (List.mem_cons_of_mem x hy)
      exact ⟨a :: as, by rw [List.map_cons, List.map_cons, hx, hxs],
        List.forall_mem_cons.2 ⟨ha, has⟩⟩

/-- The docstring of some declaration is the extent of a string token. -/
theorem exists_docstring {docstring : Option DocLiteral} {tokens : List Token}
    (hs : Standing source tokens) (h : ∀ literal ∈ docstring, literal.IsFrom tokens) :
    ∃ extent : Option (Extent Nat),
      (docstring.map fun literal => Extent.mk literal.start literal.stop) =
        extent.map (Extent.map (Position.ofOffset source)) ∧
      ∀ e ∈ extent, ∃ t ∈ tokens, t.kind = .string ∧ e = t.extent := by
  cases docstring with
  | none => exact ⟨none, rfl, by simp⟩
  | some literal =>
      obtain ⟨t, ht, hkind, rfl⟩ := h literal rfl
      refine ⟨some t.extent, congrArg some (hs.stands t ht).extent_eq, fun e he => ?_⟩
      exact ⟨t, ht, hkind, (Option.some.inj he).symm⟩

variable {comments : List Comment} {d : Declaration}

/-- How the tokens of a definition follow each other: the first one, the name, and then those of the
header and of the suite; the last solid token stands behind the header. -/
structure DefinitionTokens.Follow (s : DefinitionTokens) (last : Token) : Prop where
  first_le : s.first.extent.start ≤ s.header.name.extent.start
  name_lt : s.header.name.extent.start < s.header.name.extent.stop
  name_le : ∀ t ∈ s.header.middle ++ s.suite, s.header.name.extent.stop ≤ t.extent.start
  header_le : ∀ t ∈ s.header.name :: s.header.middle, t.extent.stop ≤ last.extent.stop

/-- What stands behind the name, and ends no later than the last solid token, lies inside. -/
theorem DefinitionTokens.Follow.isInside {s : DefinitionTokens} {last : Token} (h : s.Follow last)
    {i j : Nat} (hi : s.header.name.extent.stop ≤ i) (hj : j ≤ last.extent.stop) :
    Extent.IsInside (· < ·) ⟨i, j⟩ ⟨s.first.extent.start, last.extent.stop⟩ := by
  have hfirst := h.first_le
  have hname := h.name_lt
  exact ⟨Nat.not_lt_of_le (by dsimp only; omega), Nat.not_lt_of_le hj⟩

theorem Defines.exists_follow {s : DefinitionTokens} (h : Defines comments s d)
    (hs : Standing source s.tokens) :
    ∃ last ∈ s.tokens, last.isSolid = true ∧ d.span.stop = last.stop ∧ s.Follow last ∧
      ∀ t ∈ s.tokens, t.isSolid = true → t.extent.stop ≤ last.extent.stop := by
  have hname : s.header.name.kind.isWritten = true := by rw [h.name_kind]; rfl
  have hcolon : s.header.colon.kind.isWritten = true := by rw [h.colon_kind]; rfl
  have hcolonMem : s.header.colon ∈ s.tokens := by simp [s.tokens_eq]
  have hsolid := hs.isSolid hcolonMem hcolon
  obtain ⟨last, hmem, hlastSolid, hstop, hlast⟩ := hs.exists_last ⟨_, hcolonMem, hsolid⟩
  refine ⟨last, hmem, hlastSolid, (h.stop_eq ⟨_, hcolonMem, hsolid⟩).trans hstop, ?_, hlast⟩
  obtain ⟨front, hfront⟩ := s.exists_cons
  have hsplit := s.tokens_eq
  rw [hfront] at hsplit
  have hs' := hsplit ▸ hs
  have hnameFirst := hs'.stop_le (t := s.first) (u := s.header.name) List.mem_cons_self
    List.mem_cons_self
  refine ⟨Nat.le_trans (Nat.le_add_right _ _) hnameFirst,
    hs'.right.start_lt_stop List.mem_cons_self hname, fun t ht => ?_, fun t ht => ?_⟩
  · refine hs'.right.uncons.stop_le (List.mem_singleton_self _) ?_
    rcases List.mem_append.1 ht with ht | ht
    · exact List.mem_append_left _ ht
    · exact List.mem_append_right _ (List.mem_cons_of_mem _ ht)
  · -- The colon is solid and stands behind the rest of the header.
    have hheader : Standing source
        ((s.header.name :: s.header.middle) ++ s.header.colon :: s.suite) := hs'.right
    have hle := hheader.stop_le ht List.mem_cons_self
    exact Nat.le_trans hle (Nat.le_trans (Nat.le_add_right _ _) (hlast _ hcolonMem hsolid))

/-- The parameters of a definition are extents of tokens in its header. -/
theorem Defines.exists_parameters {s : DefinitionTokens} (h : Defines comments s d)
    (hs : Standing source s.header.middle) :
    ∃ parameters : List (Extent Nat),
      (if d.form.isCallable then d.parameters else []).map (fun p => p.span.extent) =
        parameters.map (Extent.map (Position.ofOffset source)) ∧
      ∀ e ∈ parameters, ∃ t ∈ s.header.middle, ∃ u ∈ s.header.middle,
        t.extent.start ≤ u.extent.stop ∧ e = ⟨t.extent.start, u.extent.stop⟩ := by
  refine exists_map_eq fun p hp => ?_
  split at hp
  next hcallable =>
    have hitem := h.parameters p hp
    rw [if_pos hcallable] at hitem
    obtain ⟨item, hne, hstretch, hspan⟩ := hitem
    obtain ⟨t, ht, u, hu, hle, hextent⟩ := (hs.sublist hstretch.sublist).exists_itemSpan hne
    exact ⟨_, hspan ▸ hextent, t, hstretch.subset ht, u, hstretch.subset hu, hle, rfl⟩
  · cases hp

/-- A definition is in order, from its first token to its last solid one. -/
theorem Defines.exists_layout {s : DefinitionTokens} (h : Defines comments s d)
    (hs : Standing source s.tokens) :
    ∃ l : Layout Nat, d.layout = l.map (Position.ofOffset source) ∧ l.IsOrdered (· < ·) ∧
      l.Spans s.tokens ∧ ∀ m : Layout Nat, m.Spans s.suite → m.whole.IsInside (· < ·) l.whole := by
  obtain ⟨last, hlastMem, hsolid, hstop, hfollow, hlast⟩ := h.exists_follow hs
  have hmem : s.first ∈ s.tokens ∧ s.header.name ∈ s.tokens := by
    obtain ⟨front, hfront⟩ := s.exists_cons
    rw [s.tokens_eq, hfront]
    exact ⟨by simp, by simp⟩
  have hbehind : Standing source (s.header.middle ++ s.header.colon :: s.suite) :=
    (Standing.right (s.tokens_eq ▸ hs)).tail
  have hsuite : Standing source s.suite := hbehind.right.tail
  have hsuiteMem : s.suite ⊆ s.tokens := s.suite_isSuffix.subset
  have hname := hfollow.name_lt
  have hfirst := hfollow.first_le
  have hnameStop := hfollow.header_le _ List.mem_cons_self
  obtain ⟨docstring, hdocstring, hstring⟩ := exists_docstring hsuite h.docstring
  obtain ⟨parameters, hparameters, hitems⟩ := h.exists_parameters hbehind.left
  refine ⟨⟨d.form.kind, ⟨s.first.extent.start, last.extent.stop⟩, some s.header.name.extent,
    docstring, parameters⟩, ?_, ⟨?_, ?_, ?_, ?_⟩, ?_, ?_⟩
  · rw [Declaration.layout, hparameters, hdocstring, h.name_eq, Span.extent, h.start_eq, hstop,
      (hs.stands _ hmem.1).position_eq, (hs.stands _ hlastMem).stop_eq]
    have hextent := (hs.stands _ hmem.2).extent_eq
    exact congrArg (fun name => Layout.mk d.form.kind _ (some name) _ _) hextent
  · dsimp only
    omega
  · exact ⟨_, rfl, hname, Nat.not_lt_of_le hfirst, Nat.not_lt_of_le hnameStop⟩
  · intro name hsome p hp
    cases hsome
    obtain ⟨t, ht, u, hu, hle, rfl⟩ := hitems p hp
    have hstart := hfollow.name_le t (List.mem_append_left _ ht)
    have hend := hfollow.header_le u (List.mem_cons_of_mem _ hu)
    exact ⟨Nat.not_lt_of_le hstart, Nat.not_lt_of_le hle, hfollow.isInside hstart hend⟩
  · intro _ name hsome literal hliteral
    cases hsome
    obtain ⟨t, ht, hstringKind, rfl⟩ := hstring literal hliteral
    have hwritten : t.kind.isWritten = true := by rw [hstringKind]; rfl
    have hstart := hfollow.name_le t (List.mem_append_right _ ht)
    have hend := hlast t (hsuiteMem ht) (hsuite.isSolid ht hwritten)
    exact ⟨Nat.not_lt_of_le hstart, hsuite.start_lt_stop ht hwritten, hfollow.isInside hstart hend⟩
  · exact ⟨s.first, hmem.1, last, hlastMem, hsolid, rfl⟩
  · rintro m ⟨t, ht, u, hu, husolid, hwhole⟩
    have hstart := hfollow.name_le t (List.mem_append_right _ ht)
    rw [hwhole]
    exact hfollow.isInside hstart (hlast u (hsuiteMem hu) husolid)

/-- A constant is in order, from its name to the last solid token of its assignment. -/
theorem Assigns.exists_layout {s : ConstantTokens} (h : Assigns comments s d)
    (hs : Standing source s.tokens) :
    ∃ l : Layout Nat, d.layout = l.map (Position.ofOffset source) ∧ l.IsOrdered (· < ·) ∧
      l.Spans s.tokens := by
  have hname : s.name.kind.isWritten = true := by rw [h.name_kind]; rfl
  have hassignment : Standing source (s.name :: s.assignment) := hs.left
  have hsolid := hassignment.isSolid List.mem_cons_self hname
  obtain ⟨last, hmem, hlastSolid, hstop, hlast⟩ :=
    hassignment.exists_last ⟨_, List.mem_cons_self, hsolid⟩
  have hstop := (h.stop_eq ⟨_, List.mem_cons_self, hsolid⟩).trans hstop
  have hlt := hassignment.start_lt_stop List.mem_cons_self hname
  have hle := hlast _ List.mem_cons_self hsolid
  obtain ⟨docstring, hdocstring, -⟩ := exists_docstring hs.right.tail h.docstring
  refine ⟨⟨.constantKind, ⟨s.name.extent.start, last.extent.stop⟩, some s.name.extent, docstring,
    []⟩, ?_, ⟨?_, ?_, by simp, fun hkind => absurd rfl hkind⟩, ?_⟩
  · have hstands := hassignment.stands _ List.mem_cons_self
    rw [Declaration.layout, hdocstring, Declaration.name?, h.form_eq, Span.extent, h.start_eq, hstop,
      hstands.position_eq, (hassignment.stands _ hmem).stop_eq]
    exact congrArg (fun name => Layout.mk .constantKind _ (some name) _ []) hstands.extent_eq
  · exact Nat.lt_of_lt_of_le hlt hle
  · exact ⟨_, rfl, hlt, Nat.lt_irrefl _, Nat.not_lt_of_le hle⟩
  · exact ⟨s.name, by simp [ConstantTokens.tokens], last, List.mem_append_left _ hmem, hlastSolid,
      rfl⟩

/-! ### Runs of declarations -/

/-- The methods in the suite of a class are in order and stand one behind the other. -/
theorem Holds.exists_methods {kind : ScopeKind} {run rest : List Token} {ds : List Declaration}
    (h : Holds comments kind run rest ds) (hkind : kind = .inClass) (hs : Standing source run) :
    ∃ methods : List (Layout Nat),
      ds.map Declaration.layout = methods.map (Layout.map (Position.ofOffset source)) ∧
      (∀ m ∈ methods, m.kind = .methodKind ∧ m.IsOrdered (· < ·) ∧ m.Spans run) ∧
      methods.Pairwise fun m n => m.whole.EndsBefore (· < ·) n.whole := by
  induction h with
  | nothing => exact ⟨[], rfl, by simp, .nil⟩
  | append _ _ ihfirst ihsecond =>
      obtain ⟨methods, hlayout, hall, hapart⟩ := ihfirst hkind hs.left
      obtain ⟨others, hlayout', hall', hapart'⟩ := ihsecond hkind hs.right
      refine ⟨methods ++ others, by rw [List.map_append, List.map_append, hlayout, hlayout'],
        fun m hm => ?_, List.pairwise_append.2 ⟨hapart, hapart', fun m hm n hn => ?_⟩⟩
      · rcases List.mem_append.1 hm with hm | hm
        · obtain ⟨hmethod, hordered, hspans⟩ := hall m hm
          exact ⟨hmethod, hordered, hspans.mono (List.subset_append_left _ _)⟩
        · obtain ⟨hmethod, hordered, hspans⟩ := hall' m hm
          exact ⟨hmethod, hordered, hspans.mono (List.subset_append_right _ _)⟩
      · exact hs.endsBefore (hall m hm).2.2 (hall' n hn).2.2
  | function defines form _ =>
      obtain ⟨l, hlayout, hordered, hspans, -⟩ := defines.exists_layout hs
      rw [if_pos hkind] at form
      have hmethod : l.kind = .methodKind := (congrArg Layout.kind hlayout).symm.trans form
      refine ⟨[l], by rw [List.map_singleton, List.map_singleton, hlayout], ?_,
        List.pairwise_singleton _ _⟩
      simp [hmethod, hordered, hspans]
  | classDef => cases hkind
  | constant => cases hkind

/-- The declarations at top level are arranged. -/
theorem Holds.exists_groups {kind : ScopeKind} {run rest : List Token} {ds : List Declaration}
    (h : Holds comments kind run rest ds) (hkind : kind = .atModule) (hs : Standing source run) :
    ∃ groups : List (Layout Nat × List (Layout Nat)),
      ds.map Declaration.layout =
        (Layout.listOf groups).map (Layout.map (Position.ofOffset source)) ∧
      (∀ g ∈ groups, ∀ l ∈ g.1 :: g.2, l.Spans run) ∧ IsArranged (· < ·) groups := by
  induction h with
  | nothing => exact ⟨[], rfl, by simp, .nil⟩
  | append _ _ ihfirst ihsecond =>
      obtain ⟨groups, hlayout, hspans, harranged⟩ := ihfirst hkind hs.left
      obtain ⟨others, hlayout', hspans', harranged'⟩ := ihsecond hkind hs.right
      refine ⟨groups ++ others, ?_, fun g hg l hl => ?_, ?_⟩
      · rw [List.map_append, hlayout, hlayout', Layout.listOf, Layout.listOf, Layout.listOf,
          List.flatMap_append, List.map_append]
      · rcases List.mem_append.1 hg with hg | hg
        · exact (hspans g hg l hl).mono (List.subset_append_left _ _)
        · exact (hspans' g hg l hl).mono (List.subset_append_right _ _)
      · exact harranged.append harranged' fun g hg g' hg' =>
          hs.endsBefore (hspans g hg _ List.mem_cons_self) (hspans' g' hg' _ List.mem_cons_self)
  | function defines form _ =>
      obtain ⟨l, hlayout, hordered, hspans, -⟩ := defines.exists_layout hs
      rw [hkind] at form
      have hfunction : l.kind = .functionKind := (congrArg Layout.kind hlayout).symm.trans form
      exact ⟨[(l, [])], by rw [List.map_singleton, hlayout]; rfl, by simpa using hspans,
        .group hordered (.inr (.inl hfunction)) (by simp) .nil⟩
  | @classDef s _ _ _ defines form _ _ body _ =>
      obtain ⟨l, hlayout, hordered, hspans, hinside⟩ := defines.exists_layout hs
      have hclass : l.kind = .classKind := (congrArg Layout.kind hlayout).symm.trans form
      obtain ⟨methods, hmethods, hall, hapart⟩ := body.exists_methods rfl hs.right.right
      refine ⟨[(l, methods)], ?_, List.forall_mem_singleton.2 (List.forall_mem_cons.2
        ⟨hspans, fun m hm => ?_⟩), .group hordered (.inl hclass) (fun m hm => ?_) hapart⟩
      · rw [List.map_cons, hlayout, hmethods, Layout.listOf, List.flatMap_singleton, List.map_cons]
      · exact (hall m hm).2.2.mono s.suite_isSuffix.subset
      · obtain ⟨hmethod, hordered, hspans⟩ := hall m hm
        exact ⟨hordered, hclass, hmethod, hinside m hspans⟩
  | constant assigns =>
      obtain ⟨l, hlayout, hordered, hspans⟩ := assigns.exists_layout hs
      have hconstant : l.kind = .constantKind := by
        have hkind := (congrArg Layout.kind hlayout).symm
        rw [Declaration.layout, assigns.form_eq] at hkind
        exact hkind
      exact ⟨[(l, [])], by rw [List.map_singleton, hlayout]; rfl, by simpa using hspans,
        .group hordered (.inr (.inr hconstant)) (by simp) .nil⟩

/-! ### Source texts -/

/-- The module ends with the last solid token, if there is one. -/
theorem Standing.exists_fileStop {tokens : List Token} (hs : Standing source tokens) :
    ∃ n ≤ source.length, fileStop tokens = .ofOffset source n ∧
      ∀ t ∈ tokens, t.isSolid = true → t.extent.stop ≤ n := by
  by_cases hsolid : ∃ t ∈ tokens, t.isSolid = true
  · obtain ⟨last, hmem, -, hstop, hlast⟩ := hs.exists_last hsolid
    have hstands := hs.stands last hmem
    exact ⟨_, hstands.stop_le, hstop.trans hstands.stop_eq, hlast⟩
  · have hnone : tokens.reverse.find? Token.isSolid = none := by simpa using hsolid
    exact ⟨0, Nat.zero_le _, by rw [fileStop, hnone]; rfl, fun t ht h => absurd ⟨t, ht, h⟩ hsolid⟩

/-- The module contains the declarations that its tokens hold. -/
theorem Holds.exists_file {tokens run rest : List Token} {ds : List Declaration}
    (h : Holds comments .atModule run rest ds) (hs : Standing source tokens)
    (hrun : run.Sublist tokens) {file : Declaration} (hfile : IsModule comments tokens file) :
    ∃ layout : FileLayout Nat,
      (file :: ds).map Declaration.layout = (layout.map (Position.ofOffset source)).layouts ∧
      layout.file.whole.stop ≤ source.length ∧ layout.IsNested (· < ·) := by
  obtain ⟨groups, hgroups, hspans, harranged⟩ := h.exists_groups rfl (hs.sublist hrun)
  obtain ⟨n, hn, hstop, hlast⟩ := hs.exists_fileStop
  obtain ⟨extent, hextent, -⟩ := exists_docstring hs fun literal hliteral => by
    obtain ⟨t, ht, hkind, hliteral, -⟩ := hfile.docstring literal hliteral
    exact ⟨t, List.dropLast_subset _ ht, hkind, hliteral⟩
  refine ⟨⟨⟨.moduleKind, ⟨0, n⟩, none, extent, []⟩, groups⟩, ?_, hn, rfl, fun g hg l hl => ?_,
    harranged⟩
  · rw [List.map_cons, hgroups, FileLayout.layouts, FileLayout.map, Layout.listOf_mapGroup,
      Declaration.layout, Declaration.name?, hfile.form_eq, hextent, hfile.span_eq, hstop]
    rfl
  · obtain ⟨_, -, last, hmem, hsolid, hwhole⟩ := hspans g hg l hl
    rw [hwhole]
    exact ⟨Nat.not_lt_zero _, Nat.not_lt_of_le (hlast last (hrun.subset hmem) hsolid)⟩

/-- The declarations of every source text are nested.  The module comes first and begins with the text;
it contains all the others.  Functions, classes and constants follow in the order of the text, no two of
them sharing a byte, each class with its methods, which are apart from each other and inside of the
class.  A declaration begins at or in front of its name, which ends at or in front of its end; in
between, the parameters of a function and the docstring of a function or class stand behind the name.
Places are offsets, and positions are in the same order in a text that is small enough for them. -/
theorem ofSource_isNested (source : Bytes) :
    (∃ file rest, (ScannedSource.ofSource source).declarations = file :: rest ∧
      file.form = .moduleDecl ∧ file.span.start = ⟨1, 1⟩) ∧
    ∃ file : FileLayout Nat,
      (ScannedSource.ofSource source).declarations.map Declaration.layout =
        (file.map (Position.ofOffset source)).layouts ∧
      file.file.whole.stop ≤ source.length ∧ file.IsNested (· < ·) ∧
      (source.length < 2 ^ 31 →
        (file.map (Position.ofOffset source)).IsNested fun p q => p.compare q = .lt) := by
  have hs := LexedSource.ofSource_standing source
  obtain ⟨file, ds, run, rest, hdeclarations, hfile, hholds, hrun⟩ := ScannedSource.ofTokens_holds
    ⟨source, (LexedSource.ofSource source).comments⟩ (LexedSource.ofSource source).tokens
  obtain ⟨layout, hlayout, hstop, hnested⟩ :=
    hholds.exists_file hs (hrun.sublist.trans (List.dropLast_sublist _)) hfile
  have hsource : (ScannedSource.ofSource source).declarations = file :: ds := hdeclarations
  rw [hsource]
  refine ⟨⟨file, ds, rfl, hfile.form_eq, by rw [hfile.span_eq]⟩, layout, hlayout, hstop, hnested,
    fun hsize => hnested.map (fun i hi j hj => ?_) hstop⟩
  exact Position.ofOffset_compare_iff hsize hi hj

end DocLint
