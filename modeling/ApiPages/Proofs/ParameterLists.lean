import ApiPages.Proofs.Decoding

/-!
# Parameter lists in a path

A parameter list stands between two parentheses and holds no parenthesis itself. Of the lists in a
path, wherever they stand, decoding drops the one that begins first and keeps what is around it; a
path without a list stays as it is.
-/
namespace ApiPages.Identifier

/-- A path that is a list in parentheses, which holds no other one, between two parts. -/
structure HoldsList (path front inner back : Text) : Prop where
  /-- The list stands between the parts. -/
  split : path = front ++ '(' :: (inner ++ ')' :: back)
  /-- No parenthesis is inside. -/
  bare : inner.IsBare

/-- The second path is the first one without the list in it that begins first. -/
inductive DropsList : Text → Text → Prop where
  /-- There is no list. -/
  | none {path} (absent : ∀ front inner back, ¬HoldsList path front inner back) :
      DropsList path path
  /-- No other list begins earlier. -/
  | leftmost {path front inner back} (list : HoldsList path front inner back)
      (first : ∀ front' inner' back', HoldsList path front' inner' back' →
        front.length ≤ front'.length) :
      DropsList path (front ++ back)

/-- A list in the rest of a path is a list in the path. -/
theorem HoldsList.cons {path front inner back : Text} (list : HoldsList path front inner back)
    (sign : Char) : HoldsList (sign :: path) (sign :: front) inner back :=
  ⟨by rw [list.split, List.cons_append], list.bare⟩

/-- A list in a path begins with the path or is a list in the rest of it. -/
theorem HoldsList.of_cons {sign : Char} {path front inner back : Text}
    (list : HoldsList (sign :: path) front inner back) :
    (sign = '(' ∧ path = inner ++ ')' :: back) ∨
      ∃ front', front = sign :: front' ∧ HoldsList path front' inner back := by
  obtain ⟨split, bare⟩ := list
  cases front with
  | nil => exact .inl (List.cons.inj split)
  | cons head front =>
    obtain ⟨rfl, rest⟩ := List.cons.inj split
    exact .inr ⟨front, rfl, rest, bare⟩

/-- What follows the list that is open, if it is closed before another one opens. -/
theorem afterClosing_eq_some_iff {text rest : Text} :
    afterClosing text = some rest ↔ ∃ inner, inner.IsBare ∧ text = inner ++ ')' :: rest := by
  constructor
  · intro closed
    induction text with
    | nil => simp [afterClosing] at closed
    | cons head text ih =>
      by_cases closing : head = ')'
      · obtain rfl : text = rest := by simpa [afterClosing, closing] using closed
        exact ⟨[], ⟨List.not_mem_nil, List.not_mem_nil⟩, by rw [closing, List.nil_append]⟩
      by_cases opening : head = '('
      · simp [afterClosing, opening] at closed
      rw [afterClosing, if_neg closing, if_neg opening] at closed
      obtain ⟨inner, ⟨left, right⟩, rfl⟩ := ih closed
      exact ⟨head :: inner, ⟨List.not_mem_cons_of_ne_of_not_mem (Ne.symm opening) left,
        List.not_mem_cons_of_ne_of_not_mem (Ne.symm closing) right⟩, rfl⟩
  · rintro ⟨inner, bare, rfl⟩
    exact afterClosing_append bare rest

/-- A list at the start of a path is dropped. -/
theorem withoutParameters_of_list {inner : Text} (bare : inner.IsBare) (back : Text) :
    withoutParameters ('(' :: (inner ++ ')' :: back)) = back := by
  simp [withoutParameters, afterClosing_append bare]

/-- A sign that begins no list is kept. -/
theorem withoutParameters_cons {sign : Char} {rest : Text}
    (absent : ∀ inner back, ¬HoldsList (sign :: rest) [] inner back) :
    withoutParameters (sign :: rest) = sign :: withoutParameters rest := by
  have unclosed : (if sign = '(' then afterClosing rest else none) = none := by
    split
    · rename_i opening
      rw [Option.eq_none_iff_forall_ne_some]
      intro back closed
      obtain ⟨inner, bare, split⟩ := afterClosing_eq_some_iff.1 closed
      exact absent inner back ⟨by rw [opening, split, List.nil_append], bare⟩
    · rfl
  rw [withoutParameters, unclosed]

/-- Decoding drops the list that begins first. -/
theorem dropsList_withoutParameters (path : Text) : DropsList path (withoutParameters path) := by
  induction path with
  | nil => exact .none fun front inner back list => by simpa using list.split
  | cons sign rest ih =>
    by_cases here : ∃ inner back, HoldsList (sign :: rest) [] inner back
    · obtain ⟨inner, back, list⟩ := here
      have dropped := DropsList.leftmost list fun _ _ _ _ => Nat.zero_le _
      rw [list.split, List.nil_append] at dropped ⊢
      rwa [withoutParameters_of_list list.bare]
    · simp only [not_exists] at here
      have later : ∀ {front inner back}, HoldsList (sign :: rest) front inner back →
          ∃ front', front = sign :: front' ∧ HoldsList rest front' inner back := by
        intro front inner back list
        refine list.of_cons.resolve_left fun ⟨opening, split⟩ => ?_
        exact here inner back ⟨by rw [opening, split, List.nil_append], list.bare⟩
      rw [withoutParameters_cons here]
      generalize withoutParameters rest = left at ih
      cases ih with
      | none absent =>
        refine .none fun front inner back list => ?_
        obtain ⟨front', -, inside⟩ := later list
        exact absent _ _ _ inside
      | leftmost list first =>
        refine .leftmost (list.cons sign) fun front inner back other => ?_
        obtain ⟨front', rfl, inside⟩ := later other
        exact Nat.succ_le_succ (first _ _ _ inside)

/-- Lists that begin at the same place are the same. -/
theorem HoldsList.unique {path front inner back front' inner' back' : Text}
    (list : HoldsList path front inner back) (other : HoldsList path front' inner' back')
    (place : front.length = front'.length) : front = front' ∧ back = back' := by
  obtain ⟨same, rest⟩ := List.append_inj (list.split.symm.trans other.split) place
  have cut := Text.cutAt_append list.bare.2 back
  rw [(List.cons.inj rest).2, Text.cutAt_append other.bare.2, Option.some.injEq,
    Prod.mk.injEq] at cut
  exact ⟨same, cut.2.symm⟩

/-- What is left of a path is what decoding leaves of it. -/
theorem dropsList_iff {path left : Text} : DropsList path left ↔ withoutParameters path = left := by
  constructor
  · intro dropped
    have decoded := dropsList_withoutParameters path
    generalize withoutParameters path = other at decoded ⊢
    cases decoded with
    | none absent =>
      cases dropped with
      | none _ => rfl
      | leftmost list _ => exact absurd list (absent _ _ _)
    | leftmost list first =>
      cases dropped with
      | none absent => exact absurd list (absent _ _ _)
      | leftmost list' first' =>
        obtain ⟨front, back⟩ :=
          list.unique list' (Nat.le_antisymm (first _ _ _ list') (first' _ _ _ list))
        rw [front, back]
  · rintro rfl
    exact dropsList_withoutParameters path

end ApiPages.Identifier
