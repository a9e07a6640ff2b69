import DocLint.Docstring.ParameterList
import Mathlib.Data.List.Forall2
import Mathlib.Data.List.Pairwise

/-!
# The entries of a section body

A parameter-like section is cut into blocks of lines, a header line and the lines of its description.
The blocks follow each other without a gap, from the first line on that is not blank.

* `IsHeadedBy`: what an entry has to do with its header line.
* `head?_behind`: where a description ends, a line begins that is no deeper than the header.
* `entries_partition`: the header lines and the descriptions are the lines of the body, in order.
-/

namespace DocLint

namespace ParameterEntry

/-- The entry begins with the line, less the margin, and all that its description says is further in
than the line. -/
structure IsHeadedBy (indent : Nat) (entry : ParameterEntry) (line : DocLine) : Prop where
  not_blank : line.isBlank = false
  text_eq : entry.header.text = line.text.drop (min indent line.leading)
  position_eq : entry.header.position = line.position.right (min indent line.leading)
  deeper : ∀ below ∈ entry.description, below.isBlank = false → line.leading < below.leading

/-- The lines of some entries whose header lines are given. -/
def blockLines (entries : List ParameterEntry) (headers : List DocLine) : List DocLine :=
  (List.zipWith (fun entry line => line :: entry.description) entries headers).flatten

theorem head?_blockLines {entries : List ParameterEntry} {headers : List DocLine}
    (h : entries.length = headers.length) : (blockLines entries headers).head? = headers.head? := by
  cases headers with
  | nil => rw [List.length_eq_zero_iff.1 h]; rfl
  | cons line headers =>
      cases entries with
      | nil => cases h
      | cons entry entries => rfl

/-- The header of an entry is its line without the margin, whether or not there is a type in it. -/
theorem header_ofHeader (header : DocLine) (bareTypes : Bool) :
    (ofHeader header bareTypes).header = header := by
  unfold ofHeader
  dsimp only
  split
  · rfl
  · split <;> rfl
  · rfl

theorem ofLines_isHeadedBy {line : DocLine} {description : Paragraph} (indent : Nat)
    (bareTypes : Bool) (hline : line.isBlank = false)
    (hdescription : ∀ below ∈ description, describes line.leading below = true) :
    (ofLines line description indent bareTypes).IsHeadedBy indent line := by
  have hheader : (ofLines line description indent bareTypes).header = line.dedent indent :=
    header_ofHeader (line.dedent indent) bareTypes
  refine ⟨hline, congrArg DocLine.text hheader, congrArg DocLine.position hheader, ?_⟩
  intro below hbelow hblank
  have hdescribes := hdescription below hbelow
  rw [describes, hblank, Bool.false_or, decide_eq_true_eq] at hdescribes
  exact hdescribes

/-- The first line that does not describe a header is not blank, and no deeper than the header. -/
theorem head?_behind {indentation : Nat} {lines : List DocLine} {next : DocLine}
    (h : (lines.dropWhile (describes indentation)).head? = some next) :
    next.isBlank = false ∧ next.leading ≤ indentation := by
  have hstop := List.head?_dropWhile_not (describes indentation) lines
  rw [h] at hstop
  simpa [describes] using hstop

/-- No blank lines are left in front of the next header. -/
theorem dropWhile_isBlank_behind (indentation : Nat) (lines : List DocLine) :
    (lines.dropWhile (describes indentation)).dropWhile DocLine.isBlank =
      lines.dropWhile (describes indentation) := by
  cases hbehind : lines.dropWhile (describes indentation) with
  | nil => rfl
  | cons next rest =>
      have hnext := head?_behind ((congrArg List.head? hbehind).trans rfl)
      exact List.dropWhile_cons_of_neg (by simp [hnext.1])

/-- The body of a section is made up of the header lines and the descriptions of its entries, in
order, apart from blank lines in front of the first header.  No header line is further in than one
above it. -/
theorem entries_partition (indent : Nat) (bareTypes : Bool) (body : List DocLine) :
    ∃ headers : List DocLine,
      List.Forall₂ (IsHeadedBy indent) (entries indent bareTypes body) headers ∧
        blockLines (entries indent bareTypes body) headers = body.dropWhile DocLine.isBlank ∧
        headers.Pairwise fun above below => below.leading ≤ above.leading := by
  fun_induction entries indent bareTypes body with
  | case1 => exact ⟨[], .nil, rfl, .nil⟩
  | case2 line rest hblank ih =>
      obtain ⟨headers, hheaders, hlines, hdepth⟩ := ih
      rw [List.dropWhile_cons_of_pos hblank]
      exact ⟨headers, hheaders, hlines, hdepth⟩
  | case3 line rest hblank ih =>
      obtain ⟨headers, hheaders, hlines, hdepth⟩ := ih
      rw [dropWhile_isBlank_behind] at hlines
      have hdescription : ∀ below ∈ rest.takeWhile (describes line.leading),
          describes line.leading below = true :=
        List.all_eq_true.1 List.all_takeWhile
      refine ⟨line :: headers, .cons ?_ hheaders, ?_, .cons ?_ hdepth⟩
      · exact ofLines_isHeadedBy indent bareTypes (by simpa using hblank) hdescription
      · -- The description and the blocks behind it are the lines below the header.
        have hrest := List.takeWhile_append_dropWhile (p := describes line.leading) (l := rest)
        rw [← hlines] at hrest
        rw [List.dropWhile_cons_of_neg hblank]
        exact congrArg (line :: ·) hrest
      · -- The next header is no deeper, and those behind it are no deeper than that one.
        intro below hbelow
        have hhead := head?_blockLines hheaders.length_eq
        rw [hlines] at hhead
        obtain ⟨next, more, rfl⟩ := List.exists_cons_of_ne_nil (List.ne_nil_of_mem hbelow)
        have hnext := (head?_behind hhead).2
        rcases List.mem_cons.1 hbelow with rfl | hbelow
        · exact hnext
        · exact Nat.le_trans (List.rel_of_pairwise_cons hdepth hbelow) hnext

end ParameterEntry

end DocLint
