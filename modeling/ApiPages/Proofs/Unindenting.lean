import ApiPages.Proofs.Lines
import ApiPages.Proofs.WhiteSpace

/-!
# Unindented texts

Unindenting takes white space only. The lines that it keeps are those between the blank ones at both
ends. The margin is the indentation of one of them and at most that of any other, so a line that is
not blank loses spaces and tabs at its start and white space at its end, and keeps its signs. A text
that is not blank has such a line, so something is left of it.
-/
namespace ApiPages.Text

/-- A text that is not blank has a line that is not blank. -/
theorem exists_line_of_not_isBlank {text : Text} (filled : ¬text.isBlank) :
    ∃ line ∈ lines text, ¬line.isBlank := by
  induction text using lineInduction with
  | last line feedless =>
    have named : line ≠ [] := fun gone => filled (gone ▸ rfl)
    exact ⟨line, by simp [lines_of_notMem feedless, named], filled⟩
  | more line rest feedless ih =>
    rw [lines_append feedless]
    by_cases blank : line.withoutReturn.isBlank
    · have white : line.isBlank := by
        rcases eq_withoutReturn_append line with same | cut
        · rwa [same]
        · rw [cut, isBlank_append, blank]
          rfl
      have later : ¬rest.isBlank := by
        intro gone
        refine filled ?_
        rw [isBlank_append, white, isBlank, List.all_cons, ← isBlank, gone]
        decide
      obtain ⟨row, listed, visible⟩ := ih later
      exact ⟨row, List.mem_cons_of_mem _ listed, visible⟩
    · exact ⟨_, List.mem_cons_self, blank⟩

/-! ### Lines between blank ones -/

/-- The part of a row of lines between the blank ones at both of its ends. -/
structure IsCore (rows kept : List Text) : Prop where
  /-- All around it are blank lines. -/
  surrounded : ∃ front back, rows = front ++ kept ++ back ∧ ∀ row ∈ front ++ back, row.isBlank
  /-- It begins with a line that is not blank. -/
  first : ∀ row ∈ kept.head?, ¬row.isBlank
  /-- It ends with a line that is not blank. -/
  last : ∀ row ∈ kept.getLast?, ¬row.isBlank

variable {rows kept : List Text}

/-- The kept lines are between the blank ones. -/
theorem isCore_coreLines (rows : List Text) : IsCore rows (coreLines rows) := by
  let tail := rows.dropWhile isBlank
  have white : ∀ list : List Text, ∀ row ∈ list.takeWhile isBlank, row.isBlank :=
    fun _ _ => List.mem_takeWhile_imp
  have whole : coreLines rows ++ (tail.reverse.takeWhile isBlank).reverse = tail := by
    rw [coreLines, ← List.reverse_append, List.takeWhile_append_dropWhile, List.reverse_reverse]
  refine ⟨⟨rows.takeWhile isBlank, (tail.reverse.takeWhile isBlank).reverse, ?_, ?_⟩, ?_, ?_⟩
  · rw [List.append_assoc, whole, List.takeWhile_append_dropWhile]
  · intro row around
    rcases List.mem_append.1 around with front | back
    · exact white _ row front
    · exact white _ row (List.mem_reverse.1 back)
  · intro row first
    have start := List.head?_dropWhile_not isBlank rows
    have same : (rows.dropWhile isBlank).head? = some row := by
      change tail.head? = some row
      rw [← whole, List.head?_append, first]
      rfl
    rw [same] at start
    simpa using start
  · intro row last
    have start := List.head?_dropWhile_not isBlank tail.reverse
    rw [coreLines, List.getLast?_reverse] at last
    rw [last] at start
    simpa using start

/-- Blank lines are passed over up to one that is not blank. -/
theorem dropWhile_isBlank_append {front : List Text} (blank : ∀ row ∈ front, row.isBlank)
    (first : ∀ row ∈ rows.head?, ¬row.isBlank) : (front ++ rows).dropWhile isBlank = rows := by
  rw [List.dropWhile_append_of_pos blank]
  cases rows with
  | nil => rfl
  | cons head others => simp [first head rfl]

/-- There is only one part between the blank lines. -/
theorem IsCore.coreLines_eq (core : IsCore rows kept) : coreLines rows = kept := by
  obtain ⟨⟨front, back, rfl, blank⟩, first, last⟩ := core
  obtain ⟨ahead, behind⟩ := List.forall_mem_append.1 blank
  have ends : ∀ row ∈ kept.reverse.head?, ¬row.isBlank := by simpa using last
  cases kept with
  | nil =>
    have gone : (front ++ [] ++ back).dropWhile isBlank = [] := by
      simpa [List.dropWhile_eq_nil_iff, or_imp, forall_and] using blank
    rw [coreLines, gone]
    rfl
  | cons head others =>
    rw [coreLines, List.append_assoc, dropWhile_isBlank_append ahead (by simpa using first),
      List.reverse_append,
      dropWhile_isBlank_append (fun row listed => behind row (List.mem_reverse.1 listed)) ends,
      List.reverse_reverse]

/-- A line that is not blank is among those from the first to the last that is not. -/
theorem mem_coreLines {lines : List Text} {line : Text} (listed : line ∈ lines)
    (visible : ¬line.isBlank) : line ∈ coreLines lines := by
  obtain ⟨⟨front, back, whole, blank⟩, -, -⟩ := isCore_coreLines lines
  rw [whole, List.mem_append, List.mem_append] at listed
  rcases listed with (ahead | inside) | behind
  · exact absurd (blank line (List.mem_append_left _ ahead)) visible
  · exact inside
  · exact absurd (blank line (List.mem_append_right _ behind)) visible

/-- The kept lines are among the lines. -/
theorem coreLines_subset (rows : List Text) : coreLines rows ⊆ rows := by
  obtain ⟨⟨front, back, whole, -⟩, -, -⟩ := isCore_coreLines rows
  intro row kept
  rw [whole]
  exact List.mem_append_left _ (List.mem_append_right _ kept)

/-- No line is kept exactly if all of them are blank. -/
theorem coreLines_eq_nil_iff : coreLines rows = [] ↔ ∀ row ∈ rows, row.isBlank := by
  constructor
  · intro gone row listed
    by_contra visible
    have kept := mem_coreLines listed visible
    rw [gone] at kept
    cases kept
  · intro blank
    have core : IsCore rows [] := ⟨⟨rows, [], by simp, by simpa using blank⟩, nofun, nofun⟩
    exact core.coreLines_eq

/-! ### The margin -/

/-- The margin of lines is at most the indentation of each that is not blank. -/
theorem margin_le {lines : List Text} {line : Text} (listed : line ∈ lines)
    (visible : ¬line.isBlank) : margin lines ≤ indentation line := by
  refine List.min?_getD_le_of_mem (List.mem_map_of_mem ?_)
  simpa [listed] using visible

/-- The margin of lines is the indentation of one of them, unless all are blank. -/
theorem exists_indentation_eq_margin {line : Text} (listed : line ∈ rows)
    (visible : ¬line.isBlank) : ∃ row ∈ rows, ¬row.isBlank ∧ indentation row = margin rows := by
  cases smallest : ((rows.filter fun row => !isBlank row).map indentation).min? with
  | none =>
    rw [List.min?_eq_none_iff, List.map_eq_nil_iff, List.filter_eq_nil_iff] at smallest
    exact absurd (smallest line listed) (by simpa using visible)
  | some least =>
    obtain ⟨row, shown, rfl⟩ := List.mem_map.1 (List.min?_mem smallest)
    obtain ⟨among, visible⟩ := List.mem_filter.1 shown
    refine ⟨row, among, by simpa using visible, ?_⟩
    rw [margin, smallest]
    rfl

/-! ### Shifted lines -/

/-- Spaces and tabs count as indentation. -/
theorem isIndent_iff {sign : Char} : isIndent sign ↔ sign = ' ' ∨ sign = '\t' := by
  simp [isIndent]

/-- What counts as indentation is white space. -/
theorem isBlank_of_isIndent {text : Text} (spaces : ∀ sign ∈ text, isIndent sign) :
    text.isBlank := by
  refine List.all_eq_true.2 fun sign listed => ?_
  rcases isIndent_iff.1 (spaces sign listed) with rfl | rfl <;> decide

/-- Spaces and tabs in front of a line that is not blank are added to its indentation. -/
theorem indentation_append {indent line : Text} (spaces : ∀ sign ∈ indent, isIndent sign)
    (visible : ¬line.isBlank) (trail : Text) :
    indentation (indent ++ line ++ trail) = indent.length + indentation line := by
  obtain ⟨sign, listed, other⟩ : ∃ sign ∈ line, ¬isIndent sign := by
    by_contra none
    simp only [not_exists, not_and, not_not] at none
    exact visible (isBlank_of_isIndent none)
  -- The count stops at that sign at the latest, so it does not reach what follows the line.
  have ended : (line ++ trail).takeWhile isIndent = line.takeWhile isIndent := by
    rw [List.takeWhile_append, if_neg]
    intro all
    have same := List.takeWhile_eq_self_iff.1
      ((List.takeWhile_prefix isIndent).eq_of_length all)
    exact other (same sign listed)
  rw [indentation, List.append_assoc, List.takeWhile_append_of_pos spaces, ended,
    List.length_append, indentation]

variable {line : Text} {margin : Nat}

/-- What a line is shifted by is spaces and tabs, if it is no more than its indentation. -/
theorem isIndent_of_mem_take (within : margin ≤ indentation line) :
    ∀ sign ∈ line.take margin, isIndent sign := by
  intro sign early
  have start : line.take margin <+: line.takeWhile isIndent :=
    List.prefix_of_prefix_length_le (List.take_prefix margin line)
      (List.takeWhile_prefix isIndent) ((List.length_take_le margin line).trans within)
  exact List.mem_takeWhile_imp (start.subset early)

/-- What a line is shifted by is no more than the line. -/
theorem le_length_of_le_indentation (within : margin ≤ indentation line) :
    margin ≤ line.length :=
  within.trans (List.takeWhile_prefix isIndent).length_le

/-- A line that is not blank is shifted by spaces and tabs at its start and loses white space at its
end. -/
theorem exists_eq_shiftLine (visible : ¬line.isBlank) (within : margin ≤ indentation line) :
    ∃ indent trail, line = indent ++ shiftLine margin line ++ trail ∧ indent.length = margin ∧
      (∀ sign ∈ indent, isIndent sign) ∧ trail.isBlank := by
  obtain ⟨trail, blank, whole⟩ := exists_eq_trimEnd (line.drop margin)
  refine ⟨line.take margin, trail, ?_,
    List.length_take_of_le (le_length_of_le_indentation within), isIndent_of_mem_take within, blank⟩
  rw [shiftLine, if_neg visible, List.append_assoc, ← whole, List.take_append_drop]

/-- A line that is not blank is not when it is shifted by no more than its indentation. -/
theorem not_isBlank_shiftLine (visible : ¬line.isBlank) (within : margin ≤ indentation line) :
    ¬(shiftLine margin line).isBlank := by
  obtain ⟨indent, trail, whole, -, spaces, blank⟩ := exists_eq_shiftLine visible within
  intro gone
  refine visible ?_
  rw [whole, isBlank_append, isBlank_append, isBlank_of_isIndent spaces, gone, blank]
  rfl

/-- A line that is not blank keeps a sign when it is shifted by no more than its indentation. -/
theorem shiftLine_ne_nil (visible : ¬line.isBlank) (within : margin ≤ indentation line) :
    shiftLine margin line ≠ [] := by
  intro gone
  have kept := not_isBlank_shiftLine visible within
  rw [gone] at kept
  exact kept rfl

/-! ### What is left -/

/-- Joined texts are not empty when one of them is not. -/
theorem joinWith_ne_nil {separator : Text} {texts : List Text} {text : Text}
    (listed : text ∈ texts) (filled : text ≠ []) : joinWith separator texts ≠ [] := by
  induction texts with
  | nil => cases listed
  | cons first others ih =>
    rw [joinWith]
    cases others with
    | nil =>
      rw [List.intercalate_singleton]
      exact List.mem_singleton.1 listed ▸ filled
    | cons second rest =>
      rw [List.intercalate_cons_cons]
      rcases List.mem_cons.1 listed with rfl | later
      · simp [filled]
      · exact List.append_ne_nil_of_right_ne_nil _ (ih later)

/-- Nothing is left of a text that is unindented exactly if all of its lines are blank. -/
theorem unindent_eq_nil_iff {text : Text} :
    text.unindent = [] ↔ ∀ line ∈ lines text, line.isBlank := by
  constructor
  · intro gone line listed
    by_contra visible
    have kept := mem_coreLines listed visible
    exact joinWith_ne_nil (List.mem_map_of_mem kept)
      (shiftLine_ne_nil visible (margin_le kept visible)) gone
  · intro blank
    rw [unindent, unindentLines, coreLines_eq_nil_iff.2 blank]
    rfl

/-- Something is left of a text that is not blank when it is unindented. -/
theorem unindent_ne_nil {text : Text} (filled : ¬text.isBlank) : text.unindent ≠ [] := by
  obtain ⟨line, listed, visible⟩ := exists_line_of_not_isBlank filled
  exact fun gone => visible (unindent_eq_nil_iff.1 gone line listed)

end ApiPages.Text
