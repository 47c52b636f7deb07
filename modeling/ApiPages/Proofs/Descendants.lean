import ApiPages.Element.Basic

/-!
# Elements below a row

The elements below a row are its own elements, each followed by those below it. So an element that
stands below a row brings along everything below itself, and this is less than what the row has.
-/
namespace ApiPages.Content

/-- The elements below a row are its own elements, each followed by those below it. -/
theorem descendants_eq_flatMap (content : Content) :
    content.descendants =
      content.elements.flatMap fun child => child :: child.content.descendants := by
  induction content with
  | nil => rfl
  | text own rest ih => simp [descendants, elements, ih]
  | element name attributes content rest _ ih => simp [descendants, elements, ih]

/-- The elements of a row are among those below it. -/
theorem elements_subset_descendants (content : Content) :
    content.elements ⊆ content.descendants := by
  intro child listed
  rw [descendants_eq_flatMap]
  exact List.mem_flatMap.2 ⟨child, listed, List.mem_cons_self⟩

/-- What stands below an element below a row stands below the row. -/
theorem descendants_subset {content : Content} {inner : Element}
    (listed : inner ∈ content.descendants) : inner.content.descendants ⊆ content.descendants := by
  induction content with
  | nil => cases listed
  | text own rest ih => exact ih listed
  | element name attributes content rest inside outside =>
    intro found below
    rw [descendants, List.cons_append] at listed ⊢
    apply List.mem_cons_of_mem
    rcases List.mem_cons.1 listed with rfl | listed
    · exact List.mem_append_left _ below
    rcases List.mem_append.1 listed with within | behind
    · exact List.mem_append_left _ (inside within below)
    · exact List.mem_append_right _ (outside behind below)

/-- An element below a row holds fewer elements than the row. -/
theorem length_descendants_lt {content : Content} {inner : Element}
    (below : inner ∈ content.descendants) :
    inner.content.descendants.length < content.descendants.length := by
  induction content with
  | nil => simp [descendants] at below
  | text own rest ih => exact ih below
  | element name attributes content rest inside behind =>
    simp only [descendants, List.cons_append, List.mem_cons, List.mem_append] at below
    simp only [descendants, List.cons_append, List.length_cons, List.length_append]
    rcases below with rfl | below | below
    · exact Nat.lt_succ_of_le (Nat.le_add_right _ _)
    · have := inside below
      omega
    · have := behind below
      omega

end ApiPages.Content
