import Mathlib.Data.List.Basic
import ApiPages.Text.Lines

/-!
# The lines of a text

A text is a row of lines, each up to a line feed, and what follows the last line feed. Reading it
line by line takes the carriage return in front of a line feed off the line, and leaves out what
follows the last line feed if nothing does. So texts that are joined by line feeds are read back as
they were, unless one of them ends in a carriage return or the last one is empty.
-/
namespace ApiPages.Text

variable {line rest : Text}

/-- A line without the carriage return that belongs to its line end. -/
def withoutReturn (line : Text) : Text :=
  if line.getLast? = some '\r' then line.dropLast else line

/-- A text is what it is up to its last line feed, one line in front of another. -/
@[elab_as_elim]
theorem lineInduction {motive : Text → Prop} (last : ∀ line, '\n' ∉ line → motive line)
    (more : ∀ line rest, '\n' ∉ line → motive rest → motive (line ++ '\n' :: rest))
    (text : Text) : motive text := by
  by_cases feed : '\n' ∈ text
  · obtain ⟨line, rest, split, feedless⟩ := List.eq_append_cons_of_mem feed
    rw [split]
    exact more line rest feedless (lineInduction last more rest)
  · exact last text feed
termination_by text.length
decreasing_by
  rw [split, List.length_append, List.length_cons]
  omega

/-- A sign that does not end a line stands in front of the first one. -/
theorem lines_cons {head : Char} (other : head ≠ '\n')
    (inside : head = '\r' → rest.head? ≠ some '\n') :
    lines (head :: rest) =
      match lines rest with
      | [] => [[head]]
      | first :: others => (head :: first) :: others := by
  have single : ∀ following, head = '\r' → rest = '\n' :: following → False := by
    rintro following carriage rfl
    exact inside carriage rfl
  exact lines.eq_4 head rest other single

/-- A text without line feeds is one line, or none if it is empty. -/
theorem lines_of_notMem (feedless : '\n' ∉ line) :
    lines line = if line = [] then [] else [line] := by
  induction line with
  | nil => rfl
  | cons head others ih =>
    obtain ⟨other, later⟩ := not_or.1 (mt List.mem_cons.2 feedless)
    have inside : head = '\r' → others.head? ≠ some '\n' :=
      fun _ feed => later (List.mem_of_head? feed)
    rw [lines_cons (Ne.symm other) inside, ih later]
    cases others <;> rfl

/-- A line feed ends a line, which loses the carriage return in front of it. -/
theorem lines_append (feedless : '\n' ∉ line) (rest : Text) :
    lines (line ++ '\n' :: rest) = line.withoutReturn :: lines rest := by
  induction line with
  | nil => rfl
  | cons head others ih =>
    obtain ⟨other, later⟩ := not_or.1 (mt List.mem_cons.2 feedless)
    -- Only the last sign of the line can be read together with the line feed.
    cases others with
    | nil =>
      by_cases carriage : head = '\r'
      · subst carriage
        rfl
      · rw [List.cons_append, lines_cons (Ne.symm other) fun same => absurd same carriage]
        simp [lines, withoutReturn, carriage]
    | cons next following =>
      have inside : head = '\r' → (next :: following ++ '\n' :: rest).head? ≠ some '\n' := by
        rintro - feed
        exact later (by simp [Option.some.inj feed])
      rw [List.cons_append, lines_cons (Ne.symm other) inside, ih later]
      by_cases carriage : (next :: following).getLast? = some '\r' <;>
        simp [withoutReturn, List.getLast?_cons_cons, carriage]

/-- No line feed is left in the lines of a text. -/
theorem notMem_of_mem_lines {text : Text} (listed : line ∈ lines text) : '\n' ∉ line := by
  induction text using lineInduction with
  | last own feedless =>
    rw [lines_of_notMem feedless] at listed
    split at listed
    · cases listed
    · exact List.mem_singleton.1 listed ▸ feedless
  | more own following feedless ih =>
    rw [lines_append feedless] at listed
    rcases List.mem_cons.1 listed with rfl | later
    · rw [withoutReturn]
      split
      · exact fun feed => feedless (List.dropLast_subset own feed)
      · exact feedless
    · exact ih later

/-- A line that does not end in a carriage return is read as it is. -/
theorem withoutReturn_of_getLast? (other : line.getLast? ≠ some '\r') :
    line.withoutReturn = line := if_neg other

/-- A carriage return that is put behind a line is taken off again. -/
theorem withoutReturn_append (line : Text) : withoutReturn (line ++ ['\r']) = line := by
  simp [withoutReturn]

/-- What is taken off a line is a carriage return, if anything. -/
theorem eq_withoutReturn_append (line : Text) :
    line = line.withoutReturn ∨ line = line.withoutReturn ++ ['\r'] := by
  rw [withoutReturn]
  split
  · rename_i carriage
    exact .inr (List.dropLast_append_getLast? '\r' carriage).symm
  · exact .inl rfl

/-- Lines that are joined by line feeds are read back, if none of them ends in a carriage return and
the last one is not empty. -/
theorem lines_joinWith {rows : List Text} (feedless : ∀ row ∈ rows, '\n' ∉ row)
    (plain : ∀ row ∈ rows, row.getLast? ≠ some '\r') (filled : [] ∉ rows.getLast?) :
    lines (joinWith ['\n'] rows) = rows := by
  induction rows with
  | nil => rfl
  | cons first others ih =>
    obtain ⟨own, later⟩ := List.forall_mem_cons.1 feedless
    obtain ⟨ending, endings⟩ := List.forall_mem_cons.1 plain
    cases others with
    | nil =>
      have visible : first ≠ [] := by simpa [eq_comm] using filled
      rw [joinWith, List.intercalate_singleton, lines_of_notMem own, if_neg visible]
    | cons second rest =>
      rw [List.getLast?_cons_cons] at filled
      rw [joinWith, List.intercalate_cons_cons, List.append_assoc, List.singleton_append,
        lines_append own, ← joinWith, ih later endings filled, withoutReturn_of_getLast? ending]

/-! ### Line ends -/

/-- The line ends of joined texts are written one after the other. -/
theorem withLineEnds_append (first second separator : Text) :
    (first ++ second).withLineEnds separator =
      first.withLineEnds separator ++ second.withLineEnds separator :=
  List.flatMap_append

/-- A text without line feeds is left as it is. -/
theorem withLineEnds_of_notMem (feedless : '\n' ∉ line) (separator : Text) :
    line.withLineEnds separator = line := by
  induction line with
  | nil => rfl
  | cons head rest ih =>
    obtain ⟨other, later⟩ := not_or.1 (mt List.mem_cons.2 feedless)
    rw [withLineEnds, List.flatMap_cons, ← withLineEnds, if_neg (Ne.symm other), ih later,
      List.singleton_append]

/-- Behind each line stands the separator. -/
theorem withLineEnds_line (feedless : '\n' ∉ line) (rest separator : Text) :
    (line ++ '\n' :: rest).withLineEnds separator =
      line ++ separator ++ rest.withLineEnds separator := by
  rw [withLineEnds_append, withLineEnds_of_notMem feedless, withLineEnds, List.flatMap_cons,
    if_pos rfl, ← withLineEnds, List.append_assoc]

end ApiPages.Text
