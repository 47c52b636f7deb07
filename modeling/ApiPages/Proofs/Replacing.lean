import ApiPages.Text.Basic

/-!
# Replacing from left to right

Replacing goes through a text once. Where the target begins, the replacement is written and the text
goes on after the target; any other character stays.
-/
namespace ApiPages.Text

variable {target replacement : Text}

/-- How a text is read from left to right while a target is replaced. -/
inductive Replaced (target replacement : Text) : (text result : Text) → Prop where
  /-- The text is over. -/
  | nil : Replaced target replacement [] []
  /-- The text begins with the target. -/
  | target {rest result : Text} (further : Replaced target replacement rest result) :
      Replaced target replacement (target ++ rest) (replacement ++ result)
  /-- The text begins with a character with which no target begins. -/
  | other {head : Char} {rest result : Text} (absent : ¬ target <+: head :: rest)
      (further : Replaced target replacement rest result) :
      Replaced target replacement (head :: rest) (head :: result)

/-- Characters of an occurrence under way are left out. -/
theorem replaceFrom_eq_drop (target replacement : Text) (passed : Nat) (text : Text) :
    replaceFrom target replacement passed text =
      replaceAll (text.drop passed) target replacement := by
  induction passed generalizing text with
  | zero => rfl
  | succ passed ih =>
    cases text with
    | nil => rfl
    | cons head rest => exact ih rest

/-- An occurrence at the start of a text is replaced, and the search goes on behind it. -/
theorem replaceAll_append (named : target ≠ []) (replacement rest : Text) :
    replaceAll (target ++ rest) target replacement =
      replacement ++ replaceAll rest target replacement := by
  obtain ⟨head, tail, rfl⟩ := List.exists_cons_of_ne_nil named
  have found : (head :: tail).isPrefixOf (head :: (tail ++ rest)) :=
    List.isPrefixOf_iff_prefix.2 (List.prefix_append (head :: tail) rest)
  rw [List.cons_append, replaceAll, replaceFrom, if_pos found, replaceFrom_eq_drop]
  simp

/-- A character at which no occurrence starts stays. -/
theorem replaceAll_cons {head : Char} {rest : Text} (absent : ¬ target <+: head :: rest)
    (replacement : Text) :
    replaceAll (head :: rest) target replacement = head :: replaceAll rest target replacement := by
  rw [replaceAll, replaceFrom, if_neg (mt List.isPrefixOf_iff_prefix.1 absent), replaceAll]

/-- Replacing a target that is not empty reads the text from left to right. -/
theorem replaced_iff (named : target ≠ []) {text result : Text} :
    Replaced target replacement text result ↔ result = text.replaceAll target replacement := by
  constructor
  · intro replaced
    induction replaced with
    | nil => rfl
    | target further ih => rw [replaceAll_append named, ih]
    | other absent further ih => rw [replaceAll_cons absent, ih]
  · rintro rfl
    -- An occurrence is passed as a whole, so the induction is on the length of the text.
    induction length : text.length using Nat.strongRecOn generalizing text with
    | _ size ih =>
      by_cases begins : target <+: text
      · obtain ⟨rest, rfl⟩ := begins
        have shorter : rest.length < size := by
          have := List.length_pos_iff.2 named
          rw [← length, List.length_append]
          omega
        rw [replaceAll_append named]
        exact .target (ih _ shorter rfl)
      · cases text with
        | nil => exact .nil
        | cons head rest =>
          rw [replaceAll_cons begins]
          exact .other begins (ih _ (by simp [← length]) rfl)

/-- Replacing by something that is not shorter shortens no text. -/
theorem length_le_replaceAll (named : target ≠ []) (fits : target.length ≤ replacement.length)
    (text : Text) : text.length ≤ (text.replaceAll target replacement).length := by
  obtain ⟨result, written⟩ : ∃ result, result = text.replaceAll target replacement := ⟨_, rfl⟩
  have replaced : Replaced target replacement text result := (replaced_iff named).2 written
  rw [← written]
  clear written
  induction replaced with
  | nil => exact Nat.le_refl _
  | target further ih =>
    rw [List.length_append, List.length_append]
    omega
  | other absent further ih => exact Nat.succ_le_succ ih

end ApiPages.Text
