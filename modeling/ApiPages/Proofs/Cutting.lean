import Mathlib.Data.List.TakeWhile
import ApiPages.Text.Basic

/-!
# Cuts at the first and at the last mark

What stands before the first mark of a joined text, or after its last mark, lies in one of its two
parts, and which one is decided by where the mark occurs. Splitting a text at every mark leaves at
the end what stands after the last one. A cut at a text whose last sign occurs only at its end falls
where that text is first put.
-/
namespace ApiPages.Text

variable {mark : Char} {text first second : Text}

/-- A text without the mark is not cut. -/
theorem before_of_notMem (absent : mark ∉ text) : text.before mark = text := by
  rw [before, List.takeWhile_eq_self_iff]
  intro character member
  simpa using ne_of_mem_of_not_mem member absent

/-- Behind a text without the mark the cut falls in the rest. -/
theorem before_append_of_notMem (absent : mark ∉ first) (second : Text) :
    (first ++ second).before mark = first ++ second.before mark := by
  refine List.takeWhile_append_of_pos fun character member => ?_
  simpa using ne_of_mem_of_not_mem member absent

/-- In a text with the mark the cut does not see what follows. -/
theorem before_append_of_mem (present : mark ∈ first) (second : Text) :
    (first ++ second).before mark = first.before mark := by
  induction first with
  | nil => simp at present
  | cons head rest ih =>
    by_cases here : head = mark
    · simp [before, here]
    · have later : mark ∈ rest := (List.mem_cons.1 present).resolve_left (Ne.symm here)
      simpa [before, here] using ih later

/-- A cut falls at a mark that is the first one. -/
theorem before_append_cons (absent : mark ∉ first) (second : Text) :
    (first ++ mark :: second).before mark = first := by
  rw [before_append_of_notMem absent]
  simp [before]

/-- A cut leaves all of what stands before some other sign exactly if the mark is not in it. -/
theorem before_append_cons_iff {sign : Char} (other : sign ≠ mark) :
    (first ++ sign :: second).before mark = first ++ sign :: second.before mark ↔
      mark ∉ first := by
  constructor
  · intro kept present
    rw [before_append_of_mem present] at kept
    have shorter : (first.before mark).length ≤ first.length :=
      (List.takeWhile_prefix _).length_le
    rw [kept, List.length_append, List.length_cons] at shorter
    omega
  · intro absent
    rw [before_append_of_notMem absent]
    simp [before, other]

/-- No mark stands before the first one. -/
theorem notMem_before (mark : Char) (text : Text) : mark ∉ text.before mark := by
  induction text with
  | nil => simp [before]
  | cons head rest ih =>
    by_cases here : head = mark
    · simp [before, here]
    · simpa [before, here, Ne.symm here] using ih

/-- What stands before a cut stands in the text. -/
theorem mem_of_mem_before {character : Char} (member : character ∈ text.before mark) :
    character ∈ text :=
  (List.takeWhile_prefix _).subset member

/-- A text without the mark is all that stands after its last mark. -/
theorem afterLast_of_notMem (absent : mark ∉ text) : text.afterLast mark = text := by
  have reversed : mark ∉ text.reverse := by simpa using absent
  have whole := before_of_notMem reversed
  rw [before] at whole
  rw [afterLast, whole, List.reverse_reverse]

/-- In front of a text without the mark the last mark is looked for in the rest. -/
theorem afterLast_append_of_notMem (first : Text) (absent : mark ∉ second) :
    (first ++ second).afterLast mark = first.afterLast mark ++ second := by
  have reversed : mark ∉ second.reverse := by simpa using absent
  have cut := before_append_of_notMem reversed first.reverse
  simp only [before] at cut
  rw [afterLast, List.reverse_append, cut]
  simp [afterLast]

/-- In a text with the mark the last mark does not depend on what precedes. -/
theorem afterLast_append_of_mem (first : Text) (present : mark ∈ second) :
    (first ++ second).afterLast mark = second.afterLast mark := by
  have reversed : mark ∈ second.reverse := by simpa using present
  have cut := before_append_of_mem reversed first.reverse
  simp only [before] at cut
  rw [afterLast, List.reverse_append, cut, afterLast]

/-- No mark stands after the last one. -/
theorem notMem_afterLast (mark : Char) (text : Text) : mark ∉ text.afterLast mark := by
  have absent := notMem_before mark text.reverse
  rw [before] at absent
  simpa [afterLast] using absent

/-- A text with the mark is what precedes the last mark, the mark and what follows it. -/
theorem exists_eq_append_afterLast (present : mark ∈ text) :
    ∃ front, text = front ++ mark :: text.afterLast mark := by
  obtain ⟨front, back, split, absent⟩ := List.eq_append_cons_of_mem (List.mem_reverse.2 present)
  have whole : text = back.reverse ++ mark :: front.reverse := by
    rw [← List.reverse_reverse text, split]
    simp
  have last : text.afterLast mark = front.reverse := by
    rw [whole, show back.reverse ++ mark :: front.reverse =
      (back.reverse ++ [mark]) ++ front.reverse by simp,
      afterLast_append_of_notMem _ (by simpa using absent)]
    simp [afterLast]
  exact ⟨back.reverse, by rw [last, ← whole]⟩

/-- Splitting at every mark leaves what follows the last mark at the end, behind the pieces of what
precedes it. -/
theorem splitOn_eq_append_afterLast {front : Text}
    (split : text = front ++ mark :: text.afterLast mark) :
    text.splitOn mark = front.splitOn mark ++ [text.afterLast mark] := by
  have pieces := List.splitOn_append_cons_self (a := mark) front (text.afterLast mark)
  rwa [← split, List.splitOn_eq_singleton (notMem_afterLast mark text)] at pieces

/-- Splitting leaves at the end what follows the last mark, and nothing else of a text without the
mark. -/
theorem exists_splitOn_eq (mark : Char) (text : Text) :
    ∃ outer, text.splitOn mark = outer ++ [text.afterLast mark] ∧ (outer = [] ↔ mark ∉ text) := by
  by_cases marked : mark ∈ text
  · obtain ⟨front, split⟩ := exists_eq_append_afterLast marked
    exact ⟨front.splitOn mark, splitOn_eq_append_afterLast split,
      iff_of_false (List.splitOn_ne_nil mark front) (not_not_intro marked)⟩
  · refine ⟨[], ?_, iff_of_true rfl marked⟩
    rw [List.splitOn_eq_singleton marked, afterLast_of_notMem marked, List.nil_append]

/-- No mark is left in the pieces between the marks. -/
theorem notMem_of_mem_splitOn : ∀ piece ∈ text.splitOn mark, mark ∉ piece := by
  induction text with
  | nil => simp
  | cons head rest ih =>
    rw [List.splitOn_cons_eq_if_modifyHead]
    obtain ⟨first, others, split⟩ := List.exists_cons_of_ne_nil (List.splitOn_ne_nil mark rest)
    rw [split] at ih ⊢
    obtain ⟨own, later⟩ := List.forall_mem_cons.1 ih
    by_cases here : head = mark
    · rw [if_pos (beq_iff_eq.2 here)]
      exact List.forall_mem_cons.2 ⟨List.not_mem_nil, ih⟩
    · rw [if_neg (mt beq_iff_eq.1 here), List.modifyHead_cons]
      exact List.forall_mem_cons.2 ⟨List.not_mem_cons_of_ne_of_not_mem (Ne.symm here) own, later⟩

/-- Joined texts do not hold a sign that neither they nor the separator hold. -/
theorem notMem_joinWith {separator : Text} {texts : List Text} (between : mark ∉ separator)
    (absent : ∀ text ∈ texts, mark ∉ text) : mark ∉ joinWith separator texts := by
  induction texts with
  | nil => simp [joinWith]
  | cons first others ih =>
    obtain ⟨own, later⟩ := List.forall_mem_cons.1 absent
    rw [joinWith]
    cases others with
    | nil => rwa [List.intercalate_singleton]
    | cons second rest =>
      rw [List.intercalate_cons_cons]
      simp only [List.mem_append, not_or]
      exact ⟨⟨own, between⟩, ih later⟩

/-! ### Cuts at a text -/

/-- A text is cut at another one exactly if that occurs in it. -/
theorem cutAtText_eq_none_iff {target text : Text} :
    cutAtText target text = none ↔ ¬ target <:+: text := by
  induction text with
  | nil => simp [cutAtText]
  | cons head rest ih =>
    rw [cutAtText, List.infix_cons_iff, not_or, ← ih]
    cases start : dropStart? target (head :: rest) with
    | none =>
      have absent : ¬ target <+: head :: rest := by
        rintro ⟨following, split⟩
        rw [dropStart?_eq_some_iff.2 split.symm] at start
        cases start
      simp [absent]
    | some following =>
      have present : target <+: head :: rest := ⟨following, (dropStart?_eq_some_iff.1 start).symm⟩
      simp [present]

/-- A text that does not hold another one has no part equal to it. -/
theorem holds_eq_false_iff {text target : Text} :
    text.holds target = false ↔ ¬ target <:+: text := by
  rw [holds, ← cutAtText_eq_none_iff]
  exact Option.isSome_eq_false_iff.trans Option.isNone_iff_eq_none

/-- A text that ends with its only sign of some kind does not begin inside what stands before it. -/
theorem not_prefix_append {stem text : Text} {last : Char} (fresh : last ∉ stem)
    (filled : text ≠ []) (absent : ¬ stem ++ [last] <:+: text) (rest : Text) :
    ¬ stem ++ [last] <+: text ++ (stem ++ last :: rest) := by
  rintro ⟨following, split⟩
  rcases List.append_eq_append_iff.1 split with ⟨inner, whole, -⟩ | ⟨inner, whole, same⟩
  · exact absent ⟨[], inner, by simpa using whole.symm⟩
  · rcases List.eq_nil_or_concat inner with rfl | ⟨front, sign, rfl⟩
    · exact absent ⟨[], [], by simpa using whole⟩
    rw [List.concat_eq_append, ← List.append_assoc] at whole
    obtain ⟨rfl, ending⟩ := List.append_inj' whole rfl
    obtain rfl := List.head_eq_of_cons_eq ending
    -- The last sign of the ending would stand inside it, closer to its start.
    have longer : front.length < (text ++ front).length := by
      have := List.length_pos_iff.2 filled
      rw [List.length_append]
      omega
    have shown := congrArg (·[front.length]?) same
    simp only [List.getElem?_append_left longer, List.concat_append,
      List.getElem?_append_right le_rfl, Nat.sub_self, List.getElem?_cons_zero] at shown
    exact fresh (List.mem_of_getElem? shown)

/-- A text before an ending whose last sign occurs only at its end is cut there. -/
theorem cutAtText_append {stem text : Text} {last : Char} (fresh : last ∉ stem)
    (absent : ¬ stem ++ [last] <:+: text) (rest : Text) :
    cutAtText (stem ++ [last]) (text ++ (stem ++ last :: rest)) = some (text, rest) := by
  induction text with
  | nil =>
    have whole : stem ++ last :: rest = (stem ++ [last]) ++ rest := by simp
    have taken : dropStart? (stem ++ [last]) (stem ++ last :: rest) = some rest :=
      dropStart?_eq_some_iff.2 whole
    rw [List.nil_append]
    cases start : stem ++ last :: rest with
    | nil => simp at start
    | cons head following =>
      rw [start] at taken
      rw [cutAtText, taken]
  | cons head text ih =>
    have start : dropStart? (stem ++ [last]) (head :: text ++ (stem ++ last :: rest)) = none := by
      cases taken : dropStart? (stem ++ [last]) (head :: text ++ (stem ++ last :: rest)) with
      | none => rfl
      | some following =>
        exact absurd ⟨following, (dropStart?_eq_some_iff.1 taken).symm⟩
          (not_prefix_append fresh (by simp) absent rest)
    rw [List.infix_cons_iff, not_or] at absent
    rw [List.cons_append] at start ⊢
    rw [cutAtText, start, ih absent.2]
    rfl

end ApiPages.Text
