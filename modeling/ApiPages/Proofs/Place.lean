import ApiPages.Element.Basic

/-!
# Places in a tree

A place names a node of a row, or below it, by the positions on the way down to it, counted from
zero. The lexicographic order of places is document order, in which an element comes before
everything inside it. The elements of one name below a row stand at an ascending list of all the
places where such an element is found, so a list of descendants has every one of them once.
-/
namespace ApiPages

namespace Content

/-- The node at a place of a row. -/
def nodeAt? : Content → List Nat → Option Node
  | nil, _ | text _ _, [] | element _ _ _ _, [] => none
  | text own _, [0] => some (.text own)
  | text _ _, 0 :: _ :: _ => none
  | text _ rest, (index + 1) :: place => rest.nodeAt? (index :: place)
  | element name attributes content _, [0] => some (.element ⟨name, attributes, content⟩)
  | element _ _ content _, 0 :: index :: place => content.nodeAt? (index :: place)
  | element _ _ _ rest, (index + 1) :: place => rest.nodeAt? (index :: place)

/-- The place that becomes of a place when a node is put in front of the row. -/
def onward : List Nat → List Nat
  | [] => []
  | index :: place => (index + 1) :: place

/-- The places of the elements of one name, in document order. -/
def placesNamed (name : Text) : Content → List (List Nat)
  | nil => []
  | text _ rest => (rest.placesNamed name).map onward
  | element found _ content rest =>
    (if found = name then [[0]] else []) ++ (content.placesNamed name).map (0 :: ·) ++
      (rest.placesNamed name).map onward

/-- No node stands at the empty place. -/
@[simp]
theorem nodeAt?_nil (content : Content) : content.nodeAt? [] = none := by
  cases content <;> rfl

/-- The empty place is not listed. -/
theorem ne_nil_of_mem_placesNamed {name : Text} {content : Content} {place : List Nat}
    (listed : place ∈ content.placesNamed name) : place ≠ [] := by
  induction content generalizing place with
  | nil => simp [placesNamed] at listed
  | text own rest ih =>
    obtain ⟨inner, member, rfl⟩ := List.mem_map.1 listed
    cases inner with
    | nil => exact absurd rfl (ih member)
    | cons index others => simp [onward]
  | element found attributes content rest _ ih =>
    simp only [placesNamed, List.mem_append, List.mem_map] at listed
    rcases listed with (here | ⟨inner, _, rfl⟩) | ⟨inner, member, rfl⟩
    · split at here <;> simp_all
    · simp
    · cases inner with
      | nil => exact absurd rfl (ih member)
      | cons index others => simp [onward]

/-- Putting a node in front keeps the order of places. -/
theorem onward_lt_onward {first second : List Nat} (filled : first ≠ [])
    (ordered : first < second) : onward first < onward second := by
  cases first with
  | nil => exact absurd rfl filled
  | cons index place =>
    cases second with
    | nil => simp at ordered
    | cons other following =>
      simpa [onward, List.cons_lt_cons_iff] using ordered

/-- Places after the first node come after those inside it. -/
theorem zero_cons_lt_onward (inside : List Nat) {place : List Nat} (filled : place ≠ []) :
    0 :: inside < onward place := by
  cases place with
  | nil => exact absurd rfl filled
  | cons index others => simp [onward, List.cons_lt_cons_iff]

/-- A node in front of a row leaves the places listed for it in ascending order. -/
theorem onward_ascending {name : Text} {row : Content}
    (ascending : (row.placesNamed name).Pairwise (· < ·)) :
    ((row.placesNamed name).map onward).Pairwise (· < ·) := by
  refine List.pairwise_map.2 (ascending.imp_of_mem ?_)
  intro first second listed _ ordered
  exact onward_lt_onward (ne_nil_of_mem_placesNamed listed) ordered

/-- The places of elements are listed in ascending order, so none is listed twice. -/
theorem placesNamed_ascending (name : Text) (content : Content) :
    (content.placesNamed name).Pairwise (· < ·) := by
  induction content with
  | nil => exact .nil
  | text own rest ih => exact onward_ascending ih
  | element found attributes content rest inner outer =>
    have below : ((content.placesNamed name).map (0 :: ·)).Pairwise (· < ·) :=
      List.pairwise_map.2 (inner.imp fun ordered => by simpa [List.cons_lt_cons_iff] using ordered)
    simp only [placesNamed, List.pairwise_append, List.mem_append, List.mem_map]
    refine ⟨⟨by split <;> simp, below, ?_⟩, onward_ascending outer, ?_⟩
    · rintro first here second ⟨inside, listed, rfl⟩
      have filled := ne_nil_of_mem_placesNamed listed
      split at here
      · obtain rfl : first = [0] := by simpa using here
        cases inside with
        | nil => exact absurd rfl filled
        | cons index others => simp
      · simp at here
    · rintro first earlier second ⟨following, listed, rfl⟩
      have filled := ne_nil_of_mem_placesNamed listed
      rcases earlier with here | ⟨inside, _, rfl⟩
      · split at here
        · obtain rfl : first = [0] := by simpa using here
          exact zero_cons_lt_onward [] filled
        · simp at here
      · exact zero_cons_lt_onward inside filled

/-- A node in front moves every other node of the row one place on. -/
theorem nodeAt?_text_onward (own : Text) (rest : Content) (place : List Nat) :
    (text own rest).nodeAt? (onward place) = rest.nodeAt? place := by
  cases place <;> simp [onward, nodeAt?]

/-- An element in front moves every other node of the row one place on. -/
theorem nodeAt?_element_onward (name : Text) (attributes : Dict Text) (content rest : Content)
    (place : List Nat) :
    (element name attributes content rest).nodeAt? (onward place) = rest.nodeAt? place := by
  cases place <;> simp [onward, nodeAt?]

/-- The nodes inside the first element of a row. -/
theorem nodeAt?_element_inside (name : Text) (attributes : Dict Text) (content rest : Content)
    {place : List Nat} (filled : place ≠ []) :
    (element name attributes content rest).nodeAt? (0 :: place) = content.nodeAt? place := by
  cases place with
  | nil => exact absurd rfl filled
  | cons index others => simp [nodeAt?]

/-- What is listed behind the first node of a row. -/
theorem succ_cons_mem_onward {name : Text} {row : Content} {index : Nat} {others : List Nat} :
    (index + 1) :: others ∈ (row.placesNamed name).map onward ↔
      index :: others ∈ row.placesNamed name := by
  rw [List.mem_map]
  constructor
  · rintro ⟨inner, listed, same⟩
    cases inner with
    | nil => exact absurd rfl (ne_nil_of_mem_placesNamed listed)
    | cons first following =>
      simp only [onward, List.cons.injEq, Nat.add_right_cancel_iff] at same
      rwa [← same.1, ← same.2]
  · exact fun listed => ⟨_, listed, rfl⟩

/-- Nothing behind the first node of a row is inside that node. -/
theorem zero_cons_notMem_onward (name : Text) (row : Content) (others : List Nat) :
    0 :: others ∉ (row.placesNamed name).map onward := by
  intro listed
  obtain ⟨inner, _, same⟩ := List.mem_map.1 listed
  cases inner <;> simp [onward] at same

/-- Every place of an element of the name is listed, and no other place. -/
theorem mem_placesNamed_iff {name : Text} {content : Content} {place : List Nat} :
    place ∈ content.placesNamed name ↔
      ∃ element, content.nodeAt? place = some (.element element) ∧ element.name = name := by
  induction content generalizing place with
  | nil => simp [placesNamed, nodeAt?]
  | text own rest ih =>
    cases place with
    | nil =>
      simp only [nodeAt?_nil, reduceCtorEq, false_and, exists_false, iff_false]
      exact fun listed => ne_nil_of_mem_placesNamed listed rfl
    | cons index others =>
      cases index with
      | zero =>
        simp only [placesNamed, zero_cons_notMem_onward, false_iff, not_exists]
        cases others <;> simp [nodeAt?]
      | succ index =>
        rw [placesNamed, succ_cons_mem_onward]
        exact ih.trans (by simp [nodeAt?])
  | element found attributes content rest inner outer =>
    cases place with
    | nil =>
      simp only [nodeAt?_nil, reduceCtorEq, false_and, exists_false, iff_false]
      exact fun listed => ne_nil_of_mem_placesNamed listed rfl
    | cons index others =>
      simp only [placesNamed, List.mem_append]
      cases index with
      | zero =>
        simp only [zero_cons_notMem_onward, or_false]
        cases others with
        | nil =>
          have outside : [] ∉ content.placesNamed name :=
            fun listed => ne_nil_of_mem_placesNamed listed rfl
          by_cases here : found = name <;> simp [nodeAt?, here, outside]
        | cons next following =>
          rw [nodeAt?_element_inside _ _ _ _ (by simp)]
          refine Iff.trans ?_ inner
          by_cases here : found = name <;> simp [here]
      | succ index =>
        simp only [succ_cons_mem_onward, nodeAt?]
        refine Iff.trans ?_ outer
        by_cases here : found = name <;> simp [here]

/-- The descendants of one name are the elements at the listed places, in the same order. -/
theorem descendants_placesNamed (name : Text) (content : Content) :
    (content.placesNamed name).map content.nodeAt? =
      (content.descendants.filter (·.name = name)).map fun found => some (.element found) := by
  induction content with
  | nil => rfl
  | text own rest ih =>
    rw [placesNamed, List.map_map, descendants, ← ih]
    exact List.map_congr_left fun place _ => nodeAt?_text_onward own rest place
  | element found attributes content rest inner outer =>
    have below : ((content.placesNamed name).map (0 :: ·)).map
        (element found attributes content rest).nodeAt? =
          (content.placesNamed name).map content.nodeAt? := by
      rw [List.map_map]
      exact List.map_congr_left fun place listed =>
        nodeAt?_element_inside _ _ _ _ (ne_nil_of_mem_placesNamed listed)
    have behind : ((rest.placesNamed name).map onward).map
        (element found attributes content rest).nodeAt? =
          (rest.placesNamed name).map rest.nodeAt? := by
      rw [List.map_map]
      exact List.map_congr_left fun place _ => nodeAt?_element_onward _ _ _ _ place
    rw [placesNamed, List.map_append, List.map_append, below, behind, inner, outer]
    by_cases here : found = name <;>
      simp [here, descendants, nodeAt?, List.filter_append]

end Content

end ApiPages
