import Mathlib.Data.List.TakeWhile
import ApiPages.Text.Blank

/-!
# White space in joined texts

Collapsing a text that follows another one depends on that other one only in whether it ended in
white space. So texts that collapse to the same may stand for each other in every longer text, and
two neighbours collapse on their own unless white space meets white space. Trimming white space that
stands around a text with a sign at both of its ends leaves that text alone, and it cuts no white
space that stands behind a sign.
-/
namespace ApiPages.Text

/-- Collapsing leaves a blank text blank, whether or not white space has just been written. -/
theorem isBlank_collapseFrom {text : Text} (blank : text.isBlank) (spaced : Bool) :
    (collapseFrom spaced text).isBlank := by
  induction text generalizing spaced with
  | nil => rfl
  | cons head rest ih =>
    obtain ⟨white, others⟩ : isSpace head ∧ isBlank rest := by simpa [isBlank] using blank
    have later := ih others true
    cases spaced with
    | true => simpa [collapseFrom, white] using later
    | false =>
      have single : isSpace ' ' := by decide
      simpa [collapseFrom, white, isBlank, single] using later

/-- Nothing is left of a blank text that is trimmed. -/
theorem trim_of_isBlank {text : Text} (blank : text.isBlank) : text.trim = [] := by
  have start : text.dropWhile isSpace = [] := by
    rw [List.dropWhile_eq_nil_iff]
    simpa [isBlank] using blank
  rw [trim, trimStart, start]
  rfl

/-- Nothing is left of a blank text that is collapsed and trimmed. -/
theorem trim_collapse_of_isBlank {text : Text} (blank : text.isBlank) :
    text.collapse.trim = [] :=
  trim_of_isBlank (isBlank_collapseFrom blank false)

/-- Whether the last sign read is white space, where `spaced` says so of the one before the text. -/
def spacedAfter : (spaced : Bool) → Text → Bool
  | spaced, [] => spaced
  | _, head :: rest => spacedAfter (isSpace head) rest

/-- Only the end of a text matters to what follows it. -/
theorem collapseFrom_append (spaced : Bool) (first second : Text) :
    collapseFrom spaced (first ++ second) =
      collapseFrom spaced first ++ collapseFrom (spacedAfter spaced first) second := by
  induction first generalizing spaced with
  | nil => rfl
  | cons head rest ih =>
    rw [List.cons_append, spacedAfter]
    by_cases white : isSpace head
    · cases spaced <;> simp [collapseFrom, white, ih]
    · simp [collapseFrom, white, ih]

/-- Collapsing once more changes nothing, and nothing depends on whether it has been done before. -/
theorem collapseFrom_collapseFrom (spaced : Bool) (text : Text) :
    collapseFrom spaced (collapseFrom true text) = collapseFrom true text ∧
      collapseFrom spaced (collapseFrom false text) = collapseFrom spaced text := by
  have single : isSpace ' ' := by decide
  induction text generalizing spaced with
  | nil => exact ⟨rfl, rfl⟩
  | cons head rest ih =>
    by_cases white : isSpace head
    · cases spaced <;> simp [collapseFrom, white, single, (ih _).1]
    · cases spaced <;> simp [collapseFrom, white, (ih _).2]

/-- A collapsed text ends in white space when the text does. -/
theorem spacedAfter_collapseFrom (spaced : Bool) (text : Text) :
    spacedAfter true (collapseFrom true text) = spacedAfter true text ∧
      spacedAfter spaced (collapseFrom false text) = spacedAfter spaced text := by
  have single : isSpace ' ' := by decide
  induction text generalizing spaced with
  | nil => exact ⟨rfl, rfl⟩
  | cons head rest ih =>
    by_cases white : isSpace head
    · simp [collapseFrom, spacedAfter, white, single, (ih true).1]
    · simp [collapseFrom, spacedAfter, white, (ih false).2]

/-- Joined texts collapse as their collapsed parts do. -/
theorem collapse_append (first second : Text) :
    (first ++ second).collapse = (first.collapse ++ second.collapse).collapse := by
  rw [collapse, collapse, collapseFrom_append, collapseFrom_append, collapse, collapse,
    (collapseFrom_collapseFrom false first).2, (spacedAfter_collapseFrom false first).2,
    (collapseFrom_collapseFrom _ second).2]

/-- Texts that collapse to the same may stand for each other in a longer text. -/
theorem collapse_append_congr {first first' second second' : Text}
    (front : first.collapse = first'.collapse) (back : second.collapse = second'.collapse) :
    (first ++ second).collapse = (first' ++ second').collapse := by
  rw [collapse_append, front, back, ← collapse_append]

/-- Whether the end of a text shows that white space has been read. -/
theorem spacedAfter_eq (spaced : Bool) {text : Text} (filled : text ≠ []) :
    spacedAfter spaced text = text.getLast?.any isSpace := by
  induction text generalizing spaced with
  | nil => exact absurd rfl filled
  | cons head rest ih =>
    cases rest with
    | nil => simp [spacedAfter]
    | cons next others => rw [spacedAfter, ih _ (by simp), List.getLast?_cons_cons]

/-- Neighbours collapse on their own unless white space meets white space. -/
theorem collapse_append_of_apart {first second : Text}
    (apart : ¬(first.getLast?.any isSpace ∧ second.head?.any isSpace)) :
    (first ++ second).collapse = first.collapse ++ second.collapse := by
  rw [collapse, collapse, collapse, collapseFrom_append]
  congr 1
  cases first with
  | nil => rfl
  | cons head rest =>
    rw [spacedAfter_eq false (by simp)]
    cases white : (head :: rest).getLast?.any isSpace with
    | false => rfl
    | true =>
      cases second with
      | nil => rfl
      | cons next others =>
        have sign : isSpace next = false := by simpa [white] using apart
        simp [collapseFrom, sign]

/-- Joined texts are blank when both are. -/
theorem isBlank_append (first second : Text) :
    (first ++ second).isBlank = (first.isBlank && second.isBlank) := by
  simp [isBlank]

/-- Nothing is left of a blank text when white space is cut off its start. -/
theorem trimStart_of_isBlank {text : Text} (blank : text.isBlank) : text.trimStart = [] := by
  rw [trimStart, List.dropWhile_eq_nil_iff]
  simpa [isBlank] using blank

/-- Nothing is left of a blank text when white space is cut off its end. -/
theorem trimEnd_of_isBlank {text : Text} (blank : text.isBlank) : text.trimEnd = [] := by
  rw [trimEnd, List.reverse_eq_nil_iff, List.dropWhile_eq_nil_iff]
  simpa [isBlank] using blank

/-- Cutting white space off the start of a text leaves it blank or not. -/
@[simp]
theorem isBlank_trimStart (text : Text) : text.trimStart.isBlank = text.isBlank := by
  induction text with
  | nil => rfl
  | cons head rest ih =>
    by_cases white : isSpace head
    · simpa [trimStart, isBlank, white] using ih
    · simp [trimStart, isBlank, white]

/-- Cutting white space off the end of a text leaves it blank or not. -/
@[simp]
theorem isBlank_trimEnd (text : Text) : text.trimEnd.isBlank = text.isBlank := by
  have reversed : ∀ other : Text, isBlank other.reverse = other.isBlank := by
    intro other
    simp [isBlank]
  have start := isBlank_trimStart text.reverse
  rwa [trimStart, reversed, ← reversed (text.reverse.dropWhile isSpace)] at start

/-- Something is left of a text that is not blank when it is trimmed. -/
theorem trim_ne_nil {text : Text} (filled : ¬text.isBlank) : text.trim ≠ [] := by
  intro gone
  rw [← isBlank_trimStart, ← isBlank_trimEnd] at filled
  exact filled (congrArg isBlank gone)

/-- White space in front of a sign is cut without what follows. -/
theorem trimStart_append {sign : Char} (visible : isSpace sign = false) (front back : Text) :
    (front ++ sign :: back).trimStart = front.trimStart ++ sign :: back := by
  rw [trimStart, List.dropWhile_append]
  split
  · rename_i gone
    rw [trimStart, List.isEmpty_iff.1 gone, List.nil_append, List.dropWhile_cons, visible]
    rfl
  · rfl

/-- White space behind a sign is cut without what goes before. -/
theorem trimEnd_append {sign : Char} (visible : isSpace sign = false) (front back : Text) :
    (front ++ [sign] ++ back).trimEnd = front ++ [sign] ++ back.trimEnd := by
  have mirrored := trimStart_append visible back.reverse front.reverse
  rw [trimEnd, trimEnd]
  simp only [trimStart] at mirrored
  simp [mirrored]

/-- White space behind a text is cut off it. -/
theorem trimEnd_append_of_isBlank (text : Text) {back : Text} (blank : back.isBlank) :
    (text ++ back).trimEnd = text.trimEnd := by
  have white : ∀ character ∈ back.reverse, isSpace character := by
    simpa [isBlank] using blank
  rw [trimEnd, List.reverse_append, List.dropWhile_append_of_pos white, trimEnd]

/-- A text is what is left when white space is cut off its end, with that white space behind it. -/
theorem exists_eq_trimEnd (text : Text) : ∃ back, back.isBlank ∧ text = text.trimEnd ++ back := by
  refine ⟨(text.reverse.takeWhile isSpace).reverse, ?_, ?_⟩
  · rw [isBlank, List.all_reverse, List.all_eq_true]
    exact fun _ => List.mem_takeWhile_imp
  · rw [trimEnd, ← List.reverse_append, List.takeWhile_append_dropWhile, List.reverse_reverse]

/-- No white space is left at the end. -/
theorem isSpace_of_getLast?_trimEnd (text : Text) :
    ∀ sign ∈ text.trimEnd.getLast?, isSpace sign = false := by
  intro sign last
  rw [trimEnd, List.getLast?_reverse] at last
  have start := List.head?_dropWhile_not isSpace text.reverse
  rwa [last] at start

/-- A text that does not end in white space is left as it is. -/
theorem trimEnd_of_getLast? {text : Text}
    (visible : ∀ sign ∈ text.getLast?, isSpace sign = false) : text.trimEnd = text := by
  rcases List.eq_nil_or_concat text with rfl | ⟨front, last, rfl⟩
  · rfl
  · rw [List.concat_eq_append] at visible ⊢
    simpa [trimEnd] using trimEnd_append (visible last (by simp)) front []

/-- White space around a text with a sign at both of its ends is cut on either side by itself. -/
theorem trim_append {first last : Char} (opens : isSpace first = false)
    (ends : isSpace last = false) (left middle right : Text) :
    (left ++ (first :: middle ++ [last]) ++ right).trim =
      left.trimStart ++ (first :: middle ++ [last]) ++ right.trimEnd := by
  have front := trimStart_append opens left (middle ++ [last] ++ right)
  have back := trimEnd_append ends (left.trimStart ++ first :: middle) right
  rw [trim]
  simp only [List.cons_append, List.append_assoc] at front back ⊢
  rw [front, back]

/-- White space at the end of joined texts is at the end of the second one, unless that is blank. -/
theorem suffix_append_iff {ending back : Text} (blank : ending.isBlank) (filled : ¬back.isBlank)
    (front : Text) : ending <:+ front ++ back ↔ ending <:+ back := by
  refine ⟨fun ended => ?_, List.suffix_append_of_suffix⟩
  rcases List.suffix_or_suffix_of_suffix ended (List.suffix_append front back) with short | long
  · exact short
  · refine absurd ?_ filled
    obtain ⟨rest, rfl⟩ := long
    rw [isBlank_append, Bool.and_eq_true] at blank
    exact blank.2

/-- White space at the start of joined texts is at the start of the first one, unless that is
blank. -/
theorem prefix_append_iff {start front : Text} (blank : start.isBlank) (filled : ¬front.isBlank)
    (back : Text) : start <+: front ++ back ↔ start <+: front := by
  refine ⟨fun started => ?_, fun started => started.trans (List.prefix_append front back)⟩
  rcases List.prefix_or_prefix_of_prefix started (List.prefix_append front back) with short | long
  · exact short
  · refine absurd ?_ filled
    obtain ⟨rest, rfl⟩ := long
    rw [isBlank_append, Bool.and_eq_true] at blank
    exact blank.1

/-- Cutting white space off the start of a text keeps what is at its end, unless it is blank. -/
theorem suffix_trimStart_iff {ending text : Text} (blank : ending.isBlank)
    (filled : ¬text.isBlank) : ending <:+ text.trimStart ↔ ending <:+ text := by
  have visible : ¬text.trimStart.isBlank := by rwa [isBlank_trimStart]
  have whole : text.takeWhile isSpace ++ text.trimStart = text :=
    List.takeWhile_append_dropWhile
  have joined := suffix_append_iff blank visible (text.takeWhile isSpace)
  rw [whole] at joined
  exact joined.symm

/-- Cutting white space off the end of a text keeps what is at its start, unless it is blank. -/
theorem prefix_trimEnd_iff {start text : Text} (blank : start.isBlank) (filled : ¬text.isBlank) :
    start <+: text.trimEnd ↔ start <+: text := by
  have visible : ¬text.trimEnd.isBlank := by rwa [isBlank_trimEnd]
  obtain ⟨back, -, whole⟩ := exists_eq_trimEnd text
  have joined := prefix_append_iff blank visible back
  rw [← whole] at joined
  exact joined.symm

end ApiPages.Text
