import DocLint.Proofs.Docstring.Boundaries

/-!
# Which paragraph is the summary

In front of the first section boundary the lines of a docstring fall into paragraphs, which are the
longest runs of lines that are not blank.  Where they are is said with line numbers alone.  The
summary is the first of them that does not look like a signature, or the last one if all do; the
extended summary is what stands between it and the boundary.

* `mem_runs_iff`, `runs_sorted`: the listed paragraphs are the longest runs, in order.
* `readProper_eq_extract`: the reader of the summary stops behind the paragraph that is chosen.
* `summary_ofLiteral`: what the summary and the extended summary of a docstring are.
-/

namespace DocLint

open Bytes

/-! ### Paragraphs among the lines -/

/-- The first line that is a section boundary, the number of lines if there is none. -/
def firstBoundary (lines : List DocLine) : Nat :=
  (List.range lines.length).findIdx fun i => isBoundary (lines.drop i)

/-- Line `k` is blank, as whatever is behind the last line is. -/
def blankAt (lines : List DocLine) (k : Nat) : Bool := lines[k]?.all DocLine.isBlank

/-- The lines from `i` up to `j` are a longest run of lines among the first `b` that are not
blank. -/
structure IsLineRun (lines : List DocLine) (b i j : Nat) : Prop where
  lt : i < j
  le : j ≤ b
  solid : ∀ k, i ≤ k → k < j → blankAt lines k = false
  front : i = 0 ∨ blankAt lines (i - 1) = true
  behind : j = b ∨ blankAt lines j = true

/-- A paragraph begins at line `i`. -/
def beginsRun (lines : List DocLine) (i : Nat) : Bool :=
  !blankAt lines i && (i == 0 || blankAt lines (i - 1))

/-- The first blank line from `i` on, among the first `b` lines. -/
def runEnd (lines : List DocLine) (b i : Nat) : Nat :=
  i + (List.range' i (b - i)).findIdx (blankAt lines)

/-- The paragraphs among the first `b` lines that begin at line `a` or behind it. -/
def runsFrom (lines : List DocLine) (b a : Nat) : List (Nat × Nat) :=
  ((List.range' a (b - a)).filter (beginsRun lines)).map fun i => (i, runEnd lines b i)

/-- The paragraphs among the first `b` lines, each with its first line and the one behind its
last. -/
def runs (lines : List DocLine) (b : Nat) : List (Nat × Nat) := runsFrom lines b 0

/-- The paragraph that is taken for the summary: the first one that is no signature, or the last. -/
def chosenRun (lines : List DocLine) (paragraphs : List (Nat × Nat)) : Option (Nat × Nat) :=
  (paragraphs.find? fun p =>
    !looksLikeSignature (Paragraph.flatten (lines.extract p.1 p.2))).or paragraphs.getLast?

/-- What is left of the lines from `e` up to `b` without the blank ones at either end. -/
def extendedBetween (lines : List DocLine) (e b : Nat) : Option Paragraph :=
  let extended := Paragraph.trim (lines.extract e b)
  if extended.isEmpty then none else some extended

variable {lines : List DocLine} {a b e i j : Nat} {P : List (Nat × Nat)}

/-- A signature is passed over where another paragraph follows. -/
theorem chosenRun_of_signature (hne : P ≠ [])
    (h : looksLikeSignature (Paragraph.flatten (lines.extract a e)) = true) :
    chosenRun lines ((a, e) :: P) = chosenRun lines P := by
  obtain ⟨p, P, rfl⟩ := List.exists_cons_of_ne_nil hne
  simp [chosenRun, h, List.getLast?_cons_cons]

/-- Any other paragraph is chosen, and so is the last. -/
theorem chosenRun_of_first (h : P = [] ∨
    looksLikeSignature (Paragraph.flatten (lines.extract a e)) = false) :
    chosenRun lines ((a, e) :: P) = some (a, e) := by
  unfold chosenRun
  rcases h with rfl | h
  · cases hlooks : looksLikeSignature (Paragraph.flatten (lines.extract a e)) <;> simp [hlooks]
  · simp [h]

theorem beginsRun_iff :
    beginsRun lines i = true ↔
      blankAt lines i = false ∧ (i = 0 ∨ blankAt lines (i - 1) = true) := by
  simp [beginsRun]

theorem le_runEnd : i ≤ runEnd lines b i := Nat.le_add_right _ _

theorem runEnd_le (h : i ≤ b) : runEnd lines b i ≤ b := by
  have hlength : (List.range' i (b - i)).findIdx (blankAt lines) ≤ (List.range' i (b - i)).length :=
    List.findIdx_le_length
  rw [List.length_range'] at hlength
  unfold runEnd
  omega

/-- No line in front of the end of a paragraph is blank. -/
theorem not_blankAt_of_lt_runEnd {k : Nat} (hi : i ≤ k) (hk : k < runEnd lines b i) :
    blankAt lines k = false := by
  have hlt : k - i < (List.range' i (b - i)).findIdx (blankAt lines) := by
    unfold runEnd at hk
    omega
  have hsolid := List.not_of_lt_findIdx hlt
  rwa [List.getElem_range', Nat.one_mul, Nat.add_sub_cancel' hi] at hsolid

/-- At the end of a paragraph is a blank line, or the last of the lines is behind. -/
theorem blankAt_runEnd (h : i ≤ b) :
    runEnd lines b i = b ∨ blankAt lines (runEnd lines b i) = true := by
  rcases Nat.lt_or_ge (runEnd lines b i) b with hlt | hge
  · have hfound : (List.range' i (b - i)).findIdx (blankAt lines) <
        (List.range' i (b - i)).length := by
      rw [List.length_range']
      unfold runEnd at hlt
      omega
    have hblank := List.findIdx_getElem (w := hfound)
    rw [List.getElem_range', Nat.one_mul] at hblank
    exact .inr hblank
  · exact .inl (Nat.le_antisymm (runEnd_le h) hge)

/-- Where a run ends is determined by where it begins. -/
theorem IsLineRun.end_unique {j' : Nat} (h : IsLineRun lines b i j)
    (h' : IsLineRun lines b i j') : j = j' := by
  have hlt : ∀ {j j' : Nat}, IsLineRun lines b i j → IsLineRun lines b i j' → ¬ j < j' := by
    intro j j' h h' hlt
    rcases h.behind with hend | hblank
    · exact absurd h'.le (by omega)
    · rw [h'.solid j (Nat.le_of_lt h.lt) hlt] at hblank
      cases hblank
  exact Nat.le_antisymm (Nat.le_of_not_lt (hlt h' h)) (Nat.le_of_not_lt (hlt h h'))

/-- The paragraph that begins at a line. -/
theorem isLineRun_runEnd (h : beginsRun lines i = true) (hb : i < b) :
    IsLineRun lines b i (runEnd lines b i) := by
  obtain ⟨hsolid, hfront⟩ := beginsRun_iff.1 h
  have hend : runEnd lines b i = b ∨ blankAt lines (runEnd lines b i) = true :=
    blankAt_runEnd (Nat.le_of_lt hb)
  refine ⟨Nat.lt_of_le_of_ne le_runEnd fun heq => ?_, runEnd_le (Nat.le_of_lt hb),
    fun k => not_blankAt_of_lt_runEnd, hfront, hend⟩
  rw [← heq, hsolid] at hend
  exact hend.elim (Nat.ne_of_lt hb) Bool.false_ne_true

theorem mem_runsFrom_iff : (i, j) ∈ runsFrom lines b a ↔ a ≤ i ∧ IsLineRun lines b i j := by
  simp only [runsFrom, List.mem_map, List.mem_filter, List.mem_range'_1, Prod.mk.injEq]
  constructor
  · rintro ⟨i, ⟨⟨ha, hb⟩, hbegins⟩, rfl, rfl⟩
    exact ⟨ha, isLineRun_runEnd hbegins (by omega)⟩
  · rintro ⟨ha, hrun⟩
    have hlt : i < b := Nat.lt_of_lt_of_le hrun.lt hrun.le
    have hbegins : beginsRun lines i = true :=
      beginsRun_iff.2 ⟨hrun.solid i (Nat.le_refl i) hrun.lt, hrun.front⟩
    exact ⟨i, ⟨⟨ha, by omega⟩, hbegins⟩, rfl, (isLineRun_runEnd hbegins hlt).end_unique hrun⟩

/-- The listed paragraphs are the longest runs of lines that are not blank. -/
theorem mem_runs_iff : (i, j) ∈ runs lines b ↔ IsLineRun lines b i j := by
  simp [runs, mem_runsFrom_iff]

/-- A blank line stands between two paragraphs. -/
theorem IsLineRun.end_lt {i' j' : Nat} (h : IsLineRun lines b i j) (h' : IsLineRun lines b i' j')
    (hlt : i < i') : j < i' := by
  have hblank := h'.front.resolve_left (Nat.ne_of_gt (Nat.zero_lt_of_lt hlt))
  have hle : j ≤ i' - 1 := Nat.le_of_not_lt fun hinside => by
    rw [h.solid (i' - 1) (by omega) hinside] at hblank
    cases hblank
  omega

/-- The paragraphs are listed in the order of the lines. -/
theorem runs_sorted (lines : List DocLine) (b : Nat) :
    (runs lines b).Pairwise fun p q => p.2 < q.1 := by
  have hstarts : (runs lines b).Pairwise fun p q => p.1 < q.1 :=
    List.pairwise_map.2 ((List.pairwise_lt_range' 1).filter _)
  exact hstarts.imp_of_mem fun hp hq hlt => (mem_runs_iff.1 hp).end_lt (mem_runs_iff.1 hq) hlt

/-! ### Walking over the paragraphs -/

/-- Lines where no paragraph begins may be passed over. -/
theorem runsFrom_skip {a' : Nat} (h : a ≤ a') (hb : a' ≤ b)
    (hskip : ∀ k, a ≤ k → k < a' → beginsRun lines k = false) :
    runsFrom lines b a = runsFrom lines b a' := by
  have hsplit : List.range' a (b - a) = List.range' a (a' - a) ++ List.range' a' (b - a') := by
    have happend := List.range'_append_1 (s := a) (m := a' - a) (n := b - a')
    rw [Nat.add_sub_cancel' h, Nat.add_comm, Nat.sub_add_sub_cancel hb h] at happend
    exact happend.symm
  have hnone : (List.range' a (a' - a)).filter (beginsRun lines) = [] := by
    refine List.filter_eq_nil_iff.2 fun k hk => ?_
    rw [List.mem_range'_1] at hk
    exact Bool.not_eq_true _ ▸ hskip k hk.1 (by omega)
  rw [runsFrom, hsplit, List.filter_append, hnone, List.nil_append, runsFrom]

/-- No paragraph begins at a blank line. -/
theorem runsFrom_of_blank {a' : Nat} (h : a ≤ a') (hb : a' ≤ b)
    (hblank : ∀ k, a ≤ k → k < a' → blankAt lines k = true) :
    runsFrom lines b a = runsFrom lines b a' :=
  runsFrom_skip h hb fun k hk hk' => by simp [beginsRun, hblank k hk hk']

/-- The paragraph that begins here comes first, and none begins inside it. -/
theorem runsFrom_of_run (h : IsLineRun lines b a e) :
    runsFrom lines b a = (a, e) :: runsFrom lines b e := by
  have hlt : a < b := Nat.lt_of_lt_of_le h.lt h.le
  have hbegins : beginsRun lines a = true :=
    beginsRun_iff.2 ⟨h.solid a (Nat.le_refl a) h.lt, h.front⟩
  have hend : runEnd lines b a = e := (isLineRun_runEnd hbegins hlt).end_unique h
  have hinside : runsFrom lines b (a + 1) = runsFrom lines b e := by
    refine runsFrom_skip h.lt h.le fun k hk hk' => ?_
    have hbefore := h.solid (k - 1) (by omega) (by omega)
    simp only [beginsRun, hbefore, Bool.or_false, Bool.and_eq_false_imp, beq_eq_false_iff_ne]
    omega
  have hcons : List.range' a (b - a) = a :: List.range' (a + 1) (b - (a + 1)) := by
    rw [← List.range'_succ]
    congr 1
    omega
  rw [← hinside, runsFrom, hcons, List.filter_cons_of_pos hbegins, List.map_cons, hend, runsFrom]

theorem runsFrom_end (lines : List DocLine) (b : Nat) : runsFrom lines b b = [] := by
  simp [runsFrom]

/-- Blank lines in front do not count when the ends are trimmed. -/
theorem trim_append_of_blank {front p : Paragraph} (h : ∀ line ∈ front, line.isBlank = true) :
    Paragraph.trim (front ++ p) = Paragraph.trim p := by
  unfold Paragraph.trim
  rw [List.reverse_append, List.dropWhile_append]
  split
  next hnone =>
    rw [List.isEmpty_iff.1 hnone, List.dropWhile_eq_nil_iff.2 fun line hline =>
      h line (List.mem_reverse.1 hline)]
  next =>
    rw [List.reverse_append, List.reverse_reverse, List.dropWhile_append_of_pos h]

/-- The first line of a trimmed paragraph is not blank, nor is the last. -/
theorem trim_edges (p : Paragraph) :
    (∀ line ∈ (Paragraph.trim p).head?, line.isBlank = false) ∧
      ∀ line ∈ (Paragraph.trim p).getLast?, line.isBlank = false := by
  refine ⟨fun line => head?_dropWhile_isBlank, fun line hline => ?_⟩
  obtain ⟨front, hfront⟩ : Paragraph.trim p <:+ (p.reverse.dropWhile DocLine.isBlank).reverse :=
    List.dropWhile_suffix _
  refine head?_dropWhile_isBlank (p := p.reverse) ?_
  rw [← List.getLast?_reverse, ← hfront]
  exact List.mem_getLast?_append_of_mem_getLast? hline

/-! ### The reader among the paragraphs -/

/-- A paragraph ends at a boundary or at a blank line. -/
theorem paragraphLength_stop (lines : List DocLine) :
    paragraphLength lines = boundaryDistance lines ∨
      lines[paragraphLength lines]?.all DocLine.isBlank = true := by
  induction lines with
  | nil => exact .inl rfl
  | cons line rest ih =>
      unfold paragraphLength boundaryDistance
      by_cases hblank : line.isBlank = true
      · simp [hblank]
      · by_cases hboundary : isBoundary (line :: rest) = true
        · simp [hboundary]
        · simpa [hblank, hboundary] using ih

theorem paragraphLength_le (lines : List DocLine) : paragraphLength lines ≤ lines.length := by
  induction lines with
  | nil => exact Nat.le_refl 0
  | cons line rest ih =>
      unfold paragraphLength
      split
      · exact Nat.zero_le _
      · exact Nat.succ_le_succ ih

/-- Lines that are no boundaries are a part of the way to the next one. -/
theorem boundaryDistance_drop {n : Nat} (hn : n ≤ lines.length)
    (h : ∀ i < n, isBoundary (lines.drop i) = false) :
    boundaryDistance lines = n + boundaryDistance (lines.drop n) := by
  induction n generalizing lines with
  | zero => simp
  | succ n ih =>
      cases lines with
      | nil => cases hn
      | cons line rest =>
          have hfirst : isBoundary (line :: rest) = false := h 0 (Nat.succ_pos n)
          have hrest := ih (Nat.le_of_succ_le_succ hn) fun i hi => h (i + 1) (Nat.succ_lt_succ hi)
          rw [boundaryDistance, hfirst, if_neg Bool.false_ne_true, List.drop_succ_cons, hrest]
          omega

/-- The first boundary is as far away as the reader has it. -/
theorem firstBoundary_eq_boundaryDistance (lines : List DocLine) :
    firstBoundary lines = boundaryDistance lines := by
  have hcalm : ∀ i < boundaryDistance lines, isBoundary (lines.drop i) = false := fun i =>
    isBoundary_drop_of_lt_boundaryDistance
  unfold firstBoundary
  rcases Nat.lt_or_eq_of_le (boundaryDistance_le lines) with hlt | heq
  · rw [List.findIdx_eq (by rwa [List.length_range])]
    simp only [List.getElem_range]
    exact ⟨isBoundary_drop_boundaryDistance hlt, fun i hi => hcalm i hi⟩
  · rw [heq] at hcalm ⊢
    conv_rhs => rw [← List.length_range (n := lines.length)]
    exact List.findIdx_eq_length.2 fun i hi => hcalm i (List.mem_range.1 hi)

namespace LineReader

/-- Whether a line ahead is blank. -/
theorem blankAt_add (r : LineReader) (k : Nat) :
    blankAt r.lines (r.position + k) = r.rest[k]?.all DocLine.isBlank := by
  rw [blankAt, rest_eq_drop, List.getElem?_drop]

/-- The boundary that is ahead stays where it is. -/
theorem PassesTo.boundary_eq {r r' : LineReader} (h : r.PassesTo r') :
    r'.position + boundaryDistance r'.rest = r.position + boundaryDistance r.rest := by
  have hrest : r'.rest = r.rest.drop (r'.position - r.position) := by
    rw [rest_eq_drop, h.lines_eq, rest_eq_drop r, List.drop_drop, Nat.add_sub_cancel' h.le]
  have hlength : r'.position - r.position ≤ r.rest.length := by
    have hbound := position_le r'
    rw [h.lines_eq] at hbound
    rw [rest_eq_drop, List.length_drop]
    omega
  have hle := h.le
  have hdistance := boundaryDistance_drop hlength fun i hi => by
    have hcalm := h.calm (r.position + i) (Nat.le_add_right _ _) (by omega)
    rw [BoundaryAt, ← List.drop_drop, ← rest_eq_drop] at hcalm
    exact eq_false_of_ne_true hcalm
  rw [hdistance, ← hrest]
  omega

theorem hasParagraph_iff (r : LineReader) :
    DocSummary.hasParagraph r = true ↔ 0 < boundaryDistance r.rest := by
  rw [DocSummary.hasParagraph, atEnd, atBoundary]
  cases hrest : r.rest with
  | nil => simp [boundaryDistance]
  | cons line rest =>
      by_cases hboundary : isBoundary (line :: rest) = true <;> simp [boundaryDistance, hboundary]

/-- The lines that are passed over are blank. -/
theorem blankAt_of_lt_skipBlank {r : LineReader} {k : Nat} (h : r.position ≤ k)
    (h' : k < r.skipBlank.position) : blankAt r.lines k = true := by
  obtain ⟨d, rfl⟩ := Nat.exists_eq_add_of_le h
  have hposition : r.skipBlank.position =
      r.position + min (r.rest.takeWhile DocLine.isBlank).length r.rest.length := position_take r _
  have hlt : d < (r.rest.takeWhile DocLine.isBlank).length := by omega
  have hlen : d < r.rest.length := Nat.lt_of_lt_of_le hlt (List.takeWhile_prefix _).length_le
  rw [blankAt_add, List.getElem?_eq_getElem hlen, ← (List.takeWhile_prefix _).getElem hlt,
    Option.all_some]
  exact List.mem_takeWhile_imp (List.getElem_mem hlt)

/-- The line that is stopped at is not blank. -/
theorem not_blankAt_skipBlank {r : LineReader} (h : r.skipBlank.rest ≠ []) :
    blankAt r.lines r.skipBlank.position = false := by
  have hat := blankAt_add r.skipBlank 0
  have hrest : r.skipBlank.rest = r.rest.dropWhile DocLine.isBlank :=
    drop_takeWhile_isBlank r.rest
  rw [(skipBlank_passes r).lines_eq, Nat.add_zero, ← List.head?_eq_getElem?] at hat
  cases hhead : r.skipBlank.rest.head? with
  | none => exact absurd (List.head?_eq_none_iff.1 hhead) h
  | some line =>
      rw [hat, hhead, Option.all_some]
      rw [hrest] at hhead
      exact head?_dropWhile_isBlank hhead

/-- The lines of a paragraph are not blank. -/
theorem not_blankAt_of_lt_readParagraph {r : LineReader} {k : Nat} (h : r.position ≤ k)
    (h' : k < r.readParagraph.2.position) : blankAt r.lines k = false := by
  obtain ⟨d, rfl⟩ := Nat.exists_eq_add_of_le h
  have hposition : r.readParagraph.2.position =
      r.position + min (paragraphLength r.rest) r.rest.length := position_take r _
  have hd : d < r.rest.length := by omega
  rw [blankAt_add, List.getElem?_eq_getElem hd, Option.all_some]
  exact take_paragraphLength_not_blank r.rest _
    (List.mem_take_iff_getElem.2 ⟨d, by omega, rfl⟩)

/-- The reader is among these lines, and `b` is the first boundary from here on. -/
structure Heading (lines : List DocLine) (b : Nat) (r : LineReader) : Prop where
  lines_eq : r.lines = lines
  boundary_eq : r.position + boundaryDistance r.rest = b

theorem Heading.of_passes {r r' : LineReader} (h : r.Heading lines b) (hpass : r.PassesTo r') :
    r'.Heading lines b :=
  ⟨hpass.lines_eq.trans h.lines_eq, hpass.boundary_eq.trans h.boundary_eq⟩

theorem Heading.position_le {r : LineReader} (h : r.Heading lines b) : r.position ≤ b :=
  h.boundary_eq ▸ Nat.le_add_right _ _

/-- A paragraph is ahead where the boundary is not reached. -/
theorem Heading.hasParagraph_iff {r : LineReader} (h : r.Heading lines b) :
    DocSummary.hasParagraph r = true ↔ r.position < b := by
  rw [LineReader.hasParagraph_iff, ← h.boundary_eq]
  omega

/-- Blank lines are passed over up to the next paragraph or to the boundary. -/
theorem Heading.skipBlank {r : LineReader} (h : r.Heading lines b)
    (hfront : r.position = 0 ∨ r.position = b ∨ blankAt lines r.position = true) :
    runsFrom lines b r.position = runsFrom lines b r.skipBlank.position ∧
      (r.skipBlank.position < b → beginsRun lines r.skipBlank.position = true) := by
  have hskip := skipBlank_passes r
  have hnext := h.of_passes hskip
  have hle := hskip.le
  have hblank : ∀ k, r.position ≤ k → k < r.skipBlank.position → blankAt lines k = true :=
    fun k hk hk' => h.lines_eq ▸ blankAt_of_lt_skipBlank hk hk'
  refine ⟨runsFrom_of_blank hle hnext.position_le hblank, fun hlt => ?_⟩
  have hsolid : blankAt lines r.skipBlank.position = false := by
    rw [← h.lines_eq]
    refine not_blankAt_skipBlank fun hend => ?_
    have hboundary := hnext.boundary_eq
    rw [hend, boundaryDistance] at hboundary
    exact Nat.ne_of_lt hlt hboundary
  refine beginsRun_iff.2 ⟨hsolid, ?_⟩
  rcases Nat.lt_or_eq_of_le hle with hmoved | hstays
  · exact .inr (hblank _ (by omega) (by omega))
  · -- Where no line was passed over, the reader stood at the first line already.
    rcases hfront with hzero | hend | hat
    · exact .inl (hstays ▸ hzero)
    · exact absurd hend (by omega)
    · rw [hstays, hsolid] at hat
      cases hat

/-- What is read is the paragraph that begins here. -/
theorem Heading.readParagraph {r : LineReader} (h : r.Heading lines b)
    (hbegins : beginsRun lines r.position = true) (hlt : r.position < b) :
    IsLineRun lines b r.position r.readParagraph.2.position ∧
      r.readParagraph.1 = lines.extract r.position r.readParagraph.2.position := by
  obtain ⟨hsolid, hfront⟩ := beginsRun_iff.1 hbegins
  have hpass := readParagraph_passes r
  have hnext := h.of_passes hpass
  have hposition : r.readParagraph.2.position =
      r.position + min (paragraphLength r.rest) r.rest.length := position_take r _
  have hboundary := h.boundary_eq
  have hstop := paragraphLength_stop r.rest
  have hbound := boundaryDistance_le r.rest
  have hle := hnext.position_le
  have hlines := h.lines_eq
  have hlength := paragraphLength_le r.rest
  have hbehind : r.readParagraph.2.position = b ∨
      blankAt lines r.readParagraph.2.position = true := by
    rw [hposition, Nat.min_eq_left hlength, ← hlines, blankAt_add]
    exact hstop.imp_left fun heq => by rw [heq, hboundary]
  refine ⟨⟨Nat.lt_of_le_of_ne hpass.le fun heq => ?_, hle, fun k hk hk' => ?_, hfront, hbehind⟩,
    hlines ▸ take_eq_extract r _⟩
  · rw [← heq, hsolid] at hbehind
    exact hbehind.elim (Nat.ne_of_lt hlt) Bool.false_ne_true
  · rw [← hlines]
    exact not_blankAt_of_lt_readParagraph hk hk'

/-- Where a paragraph is ahead, everything up to the boundary is read. -/
theorem Heading.readUntilBoundary {r : LineReader} (h : r.Heading lines b)
    (hmore : DocSummary.hasParagraph r = true) :
    r.readUntilBoundary.1 = lines.extract r.position b := by
  have hposition : r.readUntilBoundary.2.position =
      r.position + min (chunkLength r.rest) r.rest.length := position_take r _
  have hboundary := h.boundary_eq
  have hbound := boundaryDistance_le r.rest
  have hlength : chunkLength r.rest = boundaryDistance r.rest := by
    rw [LineReader.hasParagraph_iff] at hmore
    cases hrest : r.rest with
    | nil => simp [hrest, boundaryDistance] at hmore
    | cons line rest =>
        rw [hrest, boundaryDistance] at hmore
        rw [chunkLength, boundaryDistance]
        split at hmore
        · cases hmore
        next hcalm => rw [if_neg hcalm]
  rw [hlength, Nat.min_eq_left hbound, hboundary] at hposition
  rw [← hposition, ← h.lines_eq]
  exact take_eq_extract r _

end LineReader

/-- Consecutive lines in two pieces. -/
theorem extract_append_extract (lines : List DocLine) {a b c : Nat} (hab : a ≤ b) (hbc : b ≤ c) :
    lines.extract a b ++ lines.extract b c = lines.extract a c := by
  have hlength : c - a = (b - a) + (c - b) := by omega
  have hdrop : lines.drop b = (lines.drop a).drop (b - a) := by
    rw [List.drop_drop, Nat.add_sub_cancel' hab]
  simp only [List.extract_eq_take_drop]
  rw [hlength, List.take_add, hdrop]

namespace DocSummary

open LineReader

/-- The reader of the summary stops behind the paragraph that is chosen. -/
theorem readProper_eq_extract {r : LineReader} (h : r.Heading lines b)
    (hbegins : beginsRun lines r.position = true) (hlt : r.position < b) :
    ∃ p, chosenRun lines (runsFrom lines b r.position) = some p ∧ IsLineRun lines b p.1 p.2 ∧
      (readProper r).1 = lines.extract p.1 p.2 ∧ (readProper r).2.position = p.2 := by
  fun_induction readProper r with
  | case1 r paragraph next hmore ih =>
      obtain ⟨hrun, htext⟩ := h.readParagraph hbegins hlt
      have hbehind := h.of_passes (readParagraph_passes r)
      have hnext := hbehind.of_passes (skipBlank_passes paragraph.2)
      obtain ⟨hskip, hstart⟩ := hbehind.skipBlank (.inr hrun.behind)
      rw [Bool.and_eq_true, hnext.hasParagraph_iff] at hmore
      obtain ⟨hlooks, hbefore⟩ := hmore
      obtain ⟨p, hchosen, hfound⟩ := ih hnext (hstart hbefore) hbefore
      refine ⟨p, ?_, hfound⟩
      have hne : runsFrom lines b next.position ≠ [] := by
        rw [runsFrom_of_run (isLineRun_runEnd (hstart hbefore) hbefore)]
        exact List.cons_ne_nil _ _
      rw [runsFrom_of_run hrun, hskip, chosenRun_of_signature hne (htext ▸ hlooks)]
      exact hchosen
  | case2 r paragraph next hlast =>
      obtain ⟨hrun, htext⟩ := h.readParagraph hbegins hlt
      have hbehind := h.of_passes (readParagraph_passes r)
      have hnext := hbehind.of_passes (skipBlank_passes paragraph.2)
      obtain ⟨hskip, -⟩ := hbehind.skipBlank (.inr hrun.behind)
      refine ⟨(r.position, paragraph.2.position), ?_, hrun, htext, rfl⟩
      rw [runsFrom_of_run hrun]
      refine chosenRun_of_first ?_
      rw [Bool.and_eq_true, hnext.hasParagraph_iff, not_and_or] at hlast
      rcases hlast with hlooks | hend
      · exact .inr (htext ▸ eq_false_of_ne_true hlooks)
      · have hposition : next.position = b :=
          Nat.le_antisymm hnext.position_le (Nat.le_of_not_lt hend)
        exact .inl (hskip.trans (hposition ▸ runsFrom_end lines b))

/-- The extended summary is what is left up to the boundary. -/
theorem readExtended_eq_between {r : LineReader} (h : r.Heading lines b) :
    (readExtended r).1 = extendedBetween lines r.position b := by
  have hskip := skipBlank_passes r
  have hnext := h.of_passes hskip
  have hsplit : lines.extract r.position b =
      lines.extract r.position r.skipBlank.position ++ lines.extract r.skipBlank.position b :=
    (extract_append_extract lines hskip.le hnext.position_le).symm
  have hblank : ∀ line ∈ lines.extract r.position r.skipBlank.position,
      line.isBlank = true := by
    rw [← h.lines_eq, skipBlank, readWhile, ← take_eq_extract, take,
      ← List.prefix_iff_eq_take.1 (List.takeWhile_prefix _)]
    exact fun line => List.mem_takeWhile_imp
  unfold readExtended extendedBetween
  dsimp only
  rw [hsplit, trim_append_of_blank hblank]
  by_cases hmore : hasParagraph r.skipBlank = true
  · rw [if_pos hmore]
    rw [hnext.readUntilBoundary hmore]
  · rw [if_neg hmore]
    have hend : r.skipBlank.position = b := by
      rw [hnext.hasParagraph_iff] at hmore
      exact Nat.le_antisymm hnext.position_le (Nat.le_of_not_lt hmore)
    rw [hend]
    simp [Paragraph.trim]

/-- The summary is the chosen paragraph, with what is left behind it. -/
theorem read_eq_chosen (lines : List DocLine) :
    (read { rest := lines }).1 =
      (chosenRun lines (runs lines (firstBoundary lines))).map fun p =>
        ⟨lines.extract p.1 p.2, extendedBetween lines p.2 (firstBoundary lines)⟩ := by
  have hstart : LineReader.Heading lines (firstBoundary lines) { rest := lines } :=
    ⟨rfl, by simp [position, firstBoundary_eq_boundaryDistance]⟩
  have hfirst := hstart.of_passes (skipBlank_passes _)
  obtain ⟨hskip, hbegins⟩ := hstart.skipBlank (.inl rfl)
  rw [runs, show 0 = position { rest := lines } from rfl, hskip]
  unfold read
  dsimp only
  by_cases hmore : hasParagraph (LineReader.skipBlank { rest := lines }) = true
  · have hlt := hfirst.hasParagraph_iff.1 hmore
    obtain ⟨p, hchosen, -, hsummary, hposition⟩ := readProper_eq_extract hfirst (hbegins hlt) hlt
    rw [if_pos hmore, hchosen, Option.map_some, hsummary,
      readExtended_eq_between (hfirst.of_passes (readProper_passes _).1), hposition]
  · rw [if_neg hmore]
    have hend : (LineReader.skipBlank { rest := lines }).position = firstBoundary lines := by
      rw [hfirst.hasParagraph_iff] at hmore
      exact Nat.le_antisymm hfirst.position_le (Nat.le_of_not_lt hmore)
    rw [hend, runsFrom_end]
    rfl

end DocSummary

/-! ### Docstrings -/

/-- The first boundary is a boundary unless it is the end, and none is in front of it. -/
theorem firstBoundary_spec (lines : List DocLine) :
    firstBoundary lines ≤ lines.length ∧ CalmBetween lines 0 (firstBoundary lines) ∧
      (firstBoundary lines < lines.length → BoundaryAt lines (firstBoundary lines)) := by
  rw [firstBoundary_eq_boundaryDistance]
  refine ⟨boundaryDistance_le lines, fun i _ hi hboundary => ?_,
    isBoundary_drop_boundaryDistance⟩
  rw [BoundaryAt, isBoundary_drop_of_lt_boundaryDistance hi] at hboundary
  cases hboundary

/-- One of the paragraphs is chosen if there is any. -/
theorem chosenRun_mem {p : Nat × Nat} (h : chosenRun lines P = some p) : p ∈ P := by
  rcases Option.or_eq_some_iff.1 h with hfind | ⟨-, hlast⟩
  · exact List.mem_of_find?_eq_some hfind
  · exact List.mem_of_getLast? hlast

theorem chosenRun_eq_none_iff : chosenRun lines P = none ↔ P = [] := by
  rw [chosenRun, Option.or_eq_none_iff, List.getLast?_eq_none_iff]
  exact ⟨And.right, fun h => ⟨by rw [h]; rfl, h⟩⟩

/-- The lines of a paragraph are there, and none of them is blank. -/
theorem IsLineRun.extract_solid (h : IsLineRun lines b i j) (hb : b ≤ lines.length) :
    lines.extract i j ≠ [] ∧ ∀ line ∈ lines.extract i j, line.isBlank = false := by
  have hlt := h.lt
  have hle := h.le
  rw [List.extract_eq_take_drop]
  refine ⟨fun hnil => ?_, fun line hline => ?_⟩
  · have hlength := congrArg List.length hnil
    rw [List.length_take, List.length_drop, List.length_nil] at hlength
    omega
  · obtain ⟨k, hk, rfl⟩ := List.mem_iff_getElem.1 hline
    rw [List.length_take, List.length_drop] at hk
    have hsolid := h.solid (i + k) (Nat.le_add_right i k) (by omega)
    rw [blankAt, List.getElem?_eq_getElem (by omega), Option.all_some] at hsolid
    rwa [List.getElem_take, List.getElem_drop]

theorem extendedBetween_eq_some {p : Paragraph} (h : extendedBetween lines e b = some p) :
    p = Paragraph.trim (lines.extract e b) ∧ p ≠ [] := by
  unfold extendedBetween at h
  dsimp only at h
  split at h
  · cases h
  next hne =>
    cases h
    exact ⟨rfl, fun hnil => hne (List.isEmpty_iff.2 hnil)⟩

/-- Which paragraph of a docstring is its summary.  In front of the first section boundary stand
the longest runs of lines that are not blank; the summary is the first of them that does not look
like a signature, or else the last, and is missing where there are none.  The extended summary
is what stands behind it up to the boundary, without the blank lines at either end, and is missing
where nothing is left.  Hence a summary has lines, none of them blank, and an extended summary
begins and ends with a line that is not blank. -/
theorem summary_ofLiteral (literal : DocLiteral) :
    let doc := (Docstring.ofLiteral literal).1
    let b := firstBoundary literal.lines
    let P := runs literal.lines b
    (b ≤ literal.lines.length ∧ CalmBetween literal.lines 0 b ∧
      (b < literal.lines.length → BoundaryAt literal.lines b)) ∧
    (∀ i j, (i, j) ∈ P ↔ IsLineRun literal.lines b i j) ∧ P.Pairwise (fun p q => p.2 < q.1) ∧
    doc.summary = (chosenRun literal.lines P).map (fun p =>
      ⟨literal.lines.extract p.1 p.2, extendedBetween literal.lines p.2 b⟩) ∧
    (doc.summary = none ↔ P = []) ∧
    ∀ s ∈ doc.summary,
      (s.summary ≠ [] ∧ ∀ line ∈ s.summary, line.isBlank = false) ∧
      ∀ p ∈ s.extended, p ≠ [] ∧ (∀ line ∈ p.head?, line.isBlank = false) ∧
        ∀ line ∈ p.getLast?, line.isBlank = false := by
  intro doc b P
  have hb := firstBoundary_spec literal.lines
  have hsummary : doc.summary = (chosenRun literal.lines P).map (fun p =>
      ⟨literal.lines.extract p.1 p.2, extendedBetween literal.lines p.2 b⟩) :=
    DocSummary.read_eq_chosen literal.lines
  refine ⟨hb, fun i j => mem_runs_iff, runs_sorted _ _, hsummary, ?_, fun s hs => ?_⟩
  · rw [hsummary, Option.map_eq_none_iff, chosenRun_eq_none_iff]
  · rw [hsummary] at hs
    obtain ⟨p, hp, rfl⟩ := Option.map_eq_some_iff.1 hs
    have hrun : IsLineRun literal.lines b p.1 p.2 := mem_runs_iff.1 (chosenRun_mem hp)
    refine ⟨hrun.extract_solid hb.1, fun q hq => ?_⟩
    obtain ⟨rfl, hne⟩ := extendedBetween_eq_some hq
    exact ⟨hne, trim_edges _⟩

end DocLint
