import ApiPages.Proofs.WhiteSpace

/-!
# Collapsed texts

White space splits into gaps: one before the first sign of a text, one behind each sign, some of
them empty. Collapsing keeps the signs and writes every gap that holds white space as one space, and
no other text does that. Joined texts collapse like their collapsed parts, and to those parts one
after the other exactly if no gap reaches from one part into the other.
-/
namespace ApiPages.Text

/-- The white space before the first sign of a text and behind each of its signs. -/
def gaps (text : Text) : List Text := text.splitOnP fun character => !isSpace character

/-- The signs of a text, which are its characters other than white space. -/
def signs (text : Text) : Text := text.filter fun character => !isSpace character

/-- What is written for a gap. -/
def gapMark (gap : Text) : Text := if gap = [] then [] else [' ']

/-- What makes a text the collapsed form of another one. -/
structure IsCollapseOf (text result : Text) : Prop where
  /-- All white space in it is spaces. -/
  spaces : ∀ character ∈ result, isSpace character → character = ' '
  /-- No space follows another one. -/
  single : ¬[' ', ' '] <:+: result
  /-- It has the signs of the text. -/
  signs : result.signs = text.signs
  /-- It has a space for each gap of the text that is not empty. -/
  gaps : result.gaps = text.gaps.map gapMark

/-- White space at the start of a text belongs to its first gap. -/
theorem gaps_cons_of_isSpace {head : Char} (white : isSpace head) (rest : Text) :
    gaps (head :: rest) = (gaps rest).modifyHead (head :: ·) := by
  simp [gaps, List.splitOnP_cons_eq_if_modifyHead, white]

/-- Nothing is before a sign at the start of a text. -/
theorem gaps_cons_of_not_isSpace {head : Char} (sign : isSpace head = false) (rest : Text) :
    gaps (head :: rest) = [] :: gaps rest := by
  simp [gaps, List.splitOnP_cons_eq_if_modifyHead, sign]

/-- Every text has a first gap. -/
theorem gaps_ne_nil (text : Text) : text.gaps ≠ [] := List.splitOnP_ne_nil _ text

/-- The text with given gaps and signs, in turn. -/
def weave : List Text → Text → Text
  | [], _ => []
  | gap :: _, [] => gap
  | gap :: gaps, sign :: signs => gap ++ sign :: weave gaps signs

/-- Putting something at the start of the first gap puts it at the start of the text. -/
theorem weave_modifyHead {gaps : List Text} (filled : gaps ≠ []) (head : Char) (signs : Text) :
    weave (gaps.modifyHead (head :: ·)) signs = head :: weave gaps signs := by
  cases gaps with
  | nil => exact absurd rfl filled
  | cons gap others => cases signs <;> rfl

/-- A text is made up of its gaps and its signs. -/
theorem weave_gaps_signs (text : Text) : weave text.gaps text.signs = text := by
  induction text with
  | nil => rfl
  | cons head rest ih =>
    cases white : isSpace head with
    | true =>
      rw [gaps_cons_of_isSpace white, weave_modifyHead (gaps_ne_nil rest), signs,
        List.filter_cons_of_neg (by simp [white]), ← signs, ih]
    | false =>
      rw [gaps_cons_of_not_isSpace white, signs, List.filter_cons_of_pos (by simp [white]), weave,
        ← signs, ih]
      rfl

example : gaps " a\t\nbc".toList = [" ".toList, "\t\n".toList, [], []] ∧
    signs " a\t\nbc".toList = "abc".toList := by
  decide

/-- All white space in a collapsed text is spaces. -/
theorem eq_space_of_mem_collapseFrom (spaced : Bool) (text : Text) :
    ∀ character ∈ collapseFrom spaced text, isSpace character → character = ' ' := by
  induction text generalizing spaced with
  | nil => simp [collapseFrom]
  | cons head rest ih =>
    cases white : isSpace head with
    | true => cases spaced <;> simpa [collapseFrom, white] using ih true
    | false => simpa [collapseFrom, white] using ih false

/-- No white space is written behind white space. -/
theorem isSpace_of_head?_collapseFrom (text : Text) :
    ∀ character ∈ (collapseFrom true text).head?, isSpace character = false := by
  induction text with
  | nil => simp [collapseFrom]
  | cons head rest ih =>
    cases white : isSpace head with
    | true => simpa [collapseFrom, white] using ih
    | false => simp [collapseFrom, white]

/-- No space follows another one in a collapsed text. -/
theorem not_two_spaces_infix_collapseFrom (spaced : Bool) (text : Text) :
    ¬[' ', ' '] <:+: collapseFrom spaced text := by
  have single : isSpace ' ' := by decide
  induction text generalizing spaced with
  | nil => simp [collapseFrom]
  | cons head rest ih =>
    cases white : isSpace head with
    | true =>
      cases spaced with
      | true => simpa [collapseFrom, white] using ih true
      | false =>
        simp only [collapseFrom, white, if_true, Bool.false_eq_true, if_false, List.infix_cons_iff,
          List.cons_prefix_cons, true_and, not_or]
        refine ⟨fun again => ?_, ih true⟩
        obtain ⟨after, whole⟩ := again
        have start := isSpace_of_head?_collapseFrom rest ' ' (by rw [← whole]; rfl)
        exact absurd start (by simp [single])
    | false =>
      have other : ' ' ≠ head := fun same => by simp [← same, single] at white
      simp [collapseFrom, white, List.infix_cons_iff, other, ih false]

/-- Collapsing keeps the signs. -/
theorem signs_collapseFrom (spaced : Bool) (text : Text) :
    (collapseFrom spaced text).signs = text.signs := by
  have single : isSpace ' ' := by decide
  induction text generalizing spaced with
  | nil => rfl
  | cons head rest ih =>
    simp only [signs] at ih
    cases white : isSpace head with
    | true => cases spaced <;> simp [collapseFrom, signs, white, single, ih]
    | false => simp [collapseFrom, signs, white, ih]

/-- Collapsing writes every gap as one space or not at all; the first gap is not written if white
space has been written before it. -/
theorem gaps_collapseFrom (text : Text) :
    (collapseFrom false text).gaps = text.gaps.map gapMark ∧
      (collapseFrom true text).gaps = (text.gaps.map gapMark).modifyHead fun _ => [] := by
  have single : isSpace ' ' := by decide
  -- Both at once, since white space leads from the first to the second and a sign back again.
  induction text with
  | nil => exact ⟨rfl, rfl⟩
  | cons head rest ih =>
    obtain ⟨first, others, split⟩ := List.exists_cons_of_ne_nil (gaps_ne_nil rest)
    cases white : isSpace head with
    | true =>
      simp [collapseFrom, white, gaps_cons_of_isSpace, single, ih.2, split, gapMark]
    | false =>
      simp [collapseFrom, white, gaps_cons_of_not_isSpace, ih.1, gapMark]

/-- Collapsing gives the collapsed form of a text. -/
theorem isCollapseOf_collapse (text : Text) : IsCollapseOf text text.collapse where
  spaces := eq_space_of_mem_collapseFrom false text
  single := not_two_spaces_infix_collapseFrom false text
  signs := signs_collapseFrom false text
  gaps := (gaps_collapseFrom text).1

/-- No other text is the collapsed form of a text. -/
theorem IsCollapseOf.eq_collapse {text result : Text} (collapsed : IsCollapseOf text result) :
    result = text.collapse := by
  have whole := isCollapseOf_collapse text
  rw [← weave_gaps_signs result, ← weave_gaps_signs text.collapse, collapsed.gaps, collapsed.signs,
    whole.gaps, whole.signs]

/-- A collapsed text starts with a space if the text starts with white space. -/
theorem exists_collapse_eq_cons {text : Text} (starts : text.head?.any isSpace) :
    ∃ back, text.collapse = ' ' :: back := by
  cases text with
  | nil => simp at starts
  | cons head rest =>
    have white : isSpace head := by simpa using starts
    exact ⟨collapseFrom true rest, by simp [collapse, collapseFrom, white]⟩

/-- A collapsed text ends with a space if the text ends with white space. -/
theorem exists_collapse_eq_append {text : Text} (ends : text.getLast?.any isSpace) :
    ∃ front, text.collapse = front ++ [' '] := by
  have filled : text ≠ [] := by
    rintro rfl
    simp at ends
  have read : spacedAfter false text.collapse = true := by
    rw [collapse, (spacedAfter_collapseFrom false text).2, spacedAfter_eq false filled, ends]
  rcases List.eq_nil_or_concat text.collapse with gone | ⟨front, last, whole⟩
  · rw [gone] at read
    exact absurd read (by simp [spacedAfter])
  · rw [whole, List.concat_eq_append, spacedAfter_eq false (by simp)] at read
    have white : isSpace last := by simpa using read
    have space : last = ' ' :=
      (isCollapseOf_collapse text).spaces last (by simp [whole]) white
    exact ⟨front, by rw [whole, space, List.concat_eq_append]⟩

/-- Neighbours collapse on their own exactly if white space does not meet white space. -/
theorem collapse_append_eq_iff (first second : Text) :
    (first ++ second).collapse = first.collapse ++ second.collapse ↔
      ¬(first.getLast?.any isSpace ∧ second.head?.any isSpace) := by
  refine ⟨fun joined ⟨ends, starts⟩ => ?_, collapse_append_of_apart⟩
  obtain ⟨front, left⟩ := exists_collapse_eq_append ends
  obtain ⟨back, right⟩ := exists_collapse_eq_cons starts
  refine (isCollapseOf_collapse (first ++ second)).single ⟨front, back, ?_⟩
  rw [joined, left, right]
  simp

/-- Collapsing is a normal form of white space. The collapsed text, and no other text, has no white
space but single spaces, has the signs of the text, and has a space before the first sign, behind
the last one or between two neighbours exactly where the text has some white space. Collapsing once
more changes nothing. A joined text collapses like its collapsed parts joined, and these are its
collapsed form exactly unless the first part ends and the second one begins with white space. -/
theorem collapse_normalises (text first second : Text) :
    (∀ result, IsCollapseOf text result ↔ result = text.collapse) ∧
      text.collapse.collapse = text.collapse ∧
      (first ++ second).collapse = (first.collapse ++ second.collapse).collapse ∧
      ((first ++ second).collapse = first.collapse ++ second.collapse ↔
        ¬(first.getLast?.any isSpace ∧ second.head?.any isSpace)) := by
  refine ⟨fun result => ⟨IsCollapseOf.eq_collapse, ?_⟩, ?_, collapse_append first second,
    collapse_append_eq_iff first second⟩
  · rintro rfl
    exact isCollapseOf_collapse text
  · exact (collapseFrom_collapseFrom false text).2

end ApiPages.Text
