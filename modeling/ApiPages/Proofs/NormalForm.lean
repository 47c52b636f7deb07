import Mathlib.Data.List.Forall2
import ApiPages.Proofs.Lines
import ApiPages.Proofs.Unindenting

/-!
# The normal form of an unindented text

The rows of an unindented text stand for the lines between the blank ones at its ends, one for one.
Those that are not blank have all lost the same indentation, which is all that one of them had, and
none ends in white space. So the rows are read back as they are, and unindenting them once more
changes nothing.
-/
namespace ApiPages.Text

/-- What a line becomes: a blank one an empty row, and any other the same without some spaces and
tabs at its start and without the white space at its end. -/
inductive StandsFor : (line row : Text) → Prop where
  /-- A blank line becomes empty. -/
  | blank {line : Text} (blank : line.isBlank) : StandsFor line []
  /-- A line with a visible sign keeps all that is not around its signs. -/
  | visible {indent row trail : Text} (spaces : ∀ sign ∈ indent, sign = ' ' ∨ sign = '\t')
      (white : trail.isBlank) (visible : ¬row.isBlank) : StandsFor (indent ++ row ++ trail) row

/-- Rows in normal form, beside the lines that they stand for. -/
structure IsUnindented (lines rows : List Text) : Prop where
  /-- The first row is not blank. -/
  first : ∃ row ∈ rows.head?, ¬row.isBlank
  /-- The last row is not blank. -/
  last : ∃ row ∈ rows.getLast?, ¬row.isBlank
  /-- No row ends in white space. -/
  trimmed : ∀ row ∈ rows, ∀ sign ∈ row.getLast?, isSpace sign = false
  /-- Some row begins with a sign that is no indentation. -/
  flush : ∃ row ∈ rows, ∃ sign ∈ row.head?, sign ≠ ' ' ∧ sign ≠ '\t'
  /-- Each row stands for the line at its place. -/
  standing : List.Forall₂ StandsFor lines rows
  /-- Rows that are not blank are indented against each other as their lines are. -/
  level : ∀ one ∈ lines.zip rows, ∀ other ∈ lines.zip rows, ¬one.1.isBlank → ¬other.1.isBlank →
    (indentation one.2 : Int) - indentation other.2 = indentation one.1 - indentation other.1

variable {line : Text} {lines : List Text}

/-! ### Rows -/

/-- Shifting a line brings in no sign. -/
theorem shiftLine_subset (margin : Nat) (line : Text) : shiftLine margin line ⊆ line := by
  rw [shiftLine]
  split
  · exact List.nil_subset _
  · obtain ⟨back, -, whole⟩ := exists_eq_trimEnd (line.drop margin)
    have kept : trimEnd (line.drop margin) ⊆ line.drop margin :=
      fun _ listed => whole ▸ List.mem_append_left _ listed
    exact List.Subset.trans kept (List.drop_subset margin line)

/-- A shifted line does not end in white space. -/
theorem isSpace_of_getLast?_shiftLine (margin : Nat) (line : Text) :
    ∀ sign ∈ (shiftLine margin line).getLast?, isSpace sign = false := by
  rw [shiftLine]
  split
  · rintro sign ⟨⟩
  · exact isSpace_of_getLast?_trimEnd _

/-- A shifted line that is shifted no further stays as it is. -/
theorem shiftLine_zero_shiftLine (margin : Nat) (line : Text) :
    shiftLine 0 (shiftLine margin line) = shiftLine margin line := by
  rw [shiftLine]
  split
  · rename_i gone
    by_contra kept
    have last := isSpace_of_getLast?_shiftLine margin line _
      (List.getLast?_eq_some_getLast (Ne.symm kept))
    have white := List.all_eq_true.1 gone _ (List.getLast_mem (Ne.symm kept))
    rw [last] at white
    cases white
  · exact trimEnd_of_getLast? (isSpace_of_getLast?_shiftLine margin line)

/-- A line that is not blank loses as much indentation as it is shifted by. -/
theorem indentation_eq_add {margin : Nat} (visible : ¬line.isBlank)
    (within : margin ≤ indentation line) :
    indentation line = margin + indentation (shiftLine margin line) := by
  obtain ⟨indent, trail, whole, length, spaces, -⟩ := exists_eq_shiftLine visible within
  have added := indentation_append spaces (not_isBlank_shiftLine visible within) trail
  rwa [← whole, length] at added

/-- A row stands for the line that it is made of. -/
theorem standsFor_shiftLine (listed : line ∈ lines) :
    StandsFor line (shiftLine (margin lines) line) := by
  by_cases blank : line.isBlank
  · rw [shiftLine, if_pos blank]
    exact .blank blank
  · have within := margin_le listed blank
    obtain ⟨indent, trail, whole, -, spaces, white⟩ := exists_eq_shiftLine blank within
    have stands := StandsFor.visible (fun sign early => isIndent_iff.1 (spaces sign early)) white
      (not_isBlank_shiftLine blank within)
    rwa [← whole] at stands

/-- A row that is not blank and has no indentation begins with a sign that is none. -/
theorem exists_head_of_indentation (visible : ¬line.isBlank) (flush : indentation line = 0) :
    ∃ sign ∈ line.head?, sign ≠ ' ' ∧ sign ≠ '\t' := by
  cases line with
  | nil => exact absurd rfl visible
  | cons sign rest =>
    refine ⟨sign, rfl, not_or.1 fun indents => ?_⟩
    rw [indentation, List.takeWhile_cons, if_pos (isIndent_iff.2 indents)] at flush
    cases flush

/-- The row with the least indentation has none. -/
theorem exists_flush (listed : line ∈ lines) (visible : ¬line.isBlank) :
    ∃ row ∈ lines.map (shiftLine (margin lines)), ¬row.isBlank ∧ indentation row = 0 := by
  obtain ⟨least, among, shown, attained⟩ := exists_indentation_eq_margin listed visible
  have within := margin_le among shown
  refine ⟨_, List.mem_map_of_mem among, not_isBlank_shiftLine shown within, ?_⟩
  have added := indentation_eq_add shown within
  omega

/-- Rows that do not stand for blank lines are not blank, at either end. -/
theorem exists_not_isBlank_of_mem {row : Option Text} (filled : row.isSome)
    (visible : ∀ line ∈ row, ¬line.isBlank) (among : ∀ line ∈ row, line ∈ lines) :
    ∃ shown ∈ row.map (shiftLine (margin lines)), ¬shown.isBlank := by
  obtain ⟨line, rfl⟩ := Option.isSome_iff_exists.1 filled
  exact ⟨_, rfl, not_isBlank_shiftLine (visible line rfl)
    (margin_le (among line rfl) (visible line rfl))⟩

/-- Lines that begin and end with one that is not blank are brought into normal form. -/
theorem isUnindented_map_shiftLine (filled : lines ≠ [])
    (first : ∀ line ∈ lines.head?, ¬line.isBlank) (last : ∀ line ∈ lines.getLast?, ¬line.isBlank) :
    IsUnindented lines (lines.map (shiftLine (margin lines))) where
  first := by
    rw [List.head?_map]
    exact exists_not_isBlank_of_mem (List.isSome_head?.2 filled) first
      fun _ => List.mem_of_head?
  last := by
    rw [List.getLast?_map]
    exact exists_not_isBlank_of_mem (List.getLast?_isSome.2 filled) last
      fun _ => List.mem_of_getLast?
  trimmed := List.forall_mem_map.2 fun line _ => isSpace_of_getLast?_shiftLine _ line
  flush := by
    obtain ⟨line, start⟩ := Option.isSome_iff_exists.1 (List.isSome_head?.2 filled)
    obtain ⟨row, listed, visible, flush⟩ :=
      exists_flush (List.mem_of_head? start) (first line start)
    exact ⟨row, listed, exists_head_of_indentation visible flush⟩
  standing := List.forall₂_map_right_iff.2 (List.forall₂_same.2 fun _ => standsFor_shiftLine)
  level := by
    have pairs : lines.zip (lines.map (shiftLine (margin lines))) =
        lines.map fun line => (line, shiftLine (margin lines) line) := by
      simpa using List.zip_map' (f := id) (l := lines) (g := shiftLine (margin lines))
    rw [pairs]
    refine List.forall_mem_map.2 fun one early => List.forall_mem_map.2 fun other late => ?_
    intro (visible : ¬one.isBlank) (shown : ¬other.isBlank)
    have lost := indentation_eq_add visible (margin_le early visible)
    have gone := indentation_eq_add shown (margin_le late shown)
    dsimp only
    omega

/-! ### Texts -/

/-- The rows of an unindented text are read back as its lines. -/
theorem lines_unindent (text : Text) : Text.lines text.unindent = unindentLines text := by
  have core := isCore_coreLines (Text.lines text)
  refine lines_joinWith ?_ ?_ ?_
  · refine List.forall_mem_map.2 fun line listed feed => ?_
    exact notMem_of_mem_lines (coreLines_subset _ listed) (shiftLine_subset _ line feed)
  · refine List.forall_mem_map.2 fun line _ carriage => ?_
    exact absurd (isSpace_of_getLast?_shiftLine _ line _ carriage) (by decide)
  · intro empty
    rw [unindentLines, List.getLast?_map] at empty
    obtain ⟨line, ending, gone⟩ := Option.map_eq_some_iff.1 empty
    have visible := core.last line ending
    exact shiftLine_ne_nil visible (margin_le (List.mem_of_getLast? ending) visible) gone

/-- The lines of an unindented text are unindented to themselves. -/
theorem unindentLines_unindent (text : Text) :
    unindentLines text.unindent = unindentLines text := by
  have core := isCore_coreLines (Text.lines text)
  by_cases blank : coreLines (Text.lines text) = []
  · have gone : unindentLines text = [] := by simp [unindentLines, blank]
    have empty : text.unindent = [] := by rw [unindent, gone, joinWith, List.intercalate_nil]
    rw [empty, gone]
    rfl
  · have normal := isUnindented_map_shiftLine blank core.first core.last
    obtain ⟨first, starts, visible⟩ := normal.first
    obtain ⟨last, ends, shown⟩ := normal.last
    have own : IsCore (unindentLines text) (unindentLines text) := by
      refine ⟨⟨[], [], by simp, by simp⟩, fun row found => ?_, fun row found => ?_⟩
      · exact Option.some.inj (starts.symm.trans found) ▸ visible
      · exact Option.some.inj (ends.symm.trans found) ▸ shown
    -- A row without indentation is left, so the rows are shifted by nothing the second time.
    have flush : margin (unindentLines text) = 0 := by
      obtain ⟨line, start⟩ := Option.isSome_iff_exists.1 (List.isSome_head?.2 blank)
      obtain ⟨row, listed, visible, least⟩ :=
        exists_flush (List.mem_of_head? start) (core.first line start)
      exact Nat.le_zero.1 (least ▸ margin_le listed visible)
    rw [unindentLines, lines_unindent, own.coreLines_eq, flush, unindentLines, List.map_map]
    exact List.map_congr_left fun line _ => shiftLine_zero_shiftLine _ line

/-- Unindenting brings a text into normal form. Nothing is left of it exactly if all of its lines
are blank, and what is left is unindented to itself. Unless it is empty, its lines, which end at
line feeds, are in normal form beside the lines of the text from the first to the last one that is
not blank. -/
theorem unindent_normal (text : Text) :
    (text.unindent = [] ↔ ∀ line ∈ text.lines, line.isBlank) ∧
    text.unindent.unindent = text.unindent ∧
    (text.unindent = [] ∨ ∃ kept, IsCore text.lines kept ∧
      IsUnindented kept (text.unindent.splitOn '\n')) := by
  refine ⟨unindent_eq_nil_iff, ?_, ?_⟩
  · rw [unindent, unindentLines_unindent, ← unindent]
  rw [or_iff_not_imp_left]
  intro filled
  have kept : coreLines text.lines ≠ [] :=
    fun gone => filled (unindent_eq_nil_iff.2 (coreLines_eq_nil_iff.1 gone))
  have feedless : ∀ row ∈ unindentLines text, '\n' ∉ row := by
    rw [← lines_unindent]
    exact fun _ => notMem_of_mem_lines
  have split : text.unindent.splitOn '\n' = unindentLines text :=
    List.splitOn_intercalate '\n' feedless (by simpa [unindentLines] using kept)
  have core := isCore_coreLines text.lines
  rw [split]
  exact ⟨coreLines text.lines, core, isUnindented_map_shiftLine kept core.first core.last⟩

/-- The least indented line loses two blanks, and the others as many of theirs. -/
example : unindent "\n  \t a \r\n \u3000\n  b\n \n".toList = "\t a\n\nb".toList := by decide

end ApiPages.Text
