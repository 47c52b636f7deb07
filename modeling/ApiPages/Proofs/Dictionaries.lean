import Mathlib.Data.List.Sort
import ApiPages.Dict

/-!
# Equality of dictionaries

The entries of a dictionary are its keys with the values found under them. Because they stand in
ascending order, nothing else about them is free: dictionaries in which every key finds the same are
equal, and entries with distinct keys make the same dictionary in whatever order they are inserted.
-/
namespace ApiPages.Dict

variable {α : Type} {entries : List (Text × α)} {key : Text} {value : α}

/-- What is found stands in the list. -/
theorem mem_of_find (found : find key entries = some value) : (key, value) ∈ entries := by
  induction entries with
  | nil => simp [find] at found
  | cons head rest ih =>
    by_cases here : key = head.1
    · have own : head.2 = value := by simpa [find, here] using found
      rw [here, ← own]
      exact List.mem_cons_self
    · exact List.mem_cons_of_mem _ (ih (by simpa [find, here] using found))

/-- Every entry of an ascending list is found. -/
theorem find_of_mem (sorted : entries.Pairwise fun left right => left.1 < right.1)
    (listed : (key, value) ∈ entries) : find key entries = some value := by
  induction entries with
  | nil => simp at listed
  | cons head rest ih =>
    obtain ⟨above, tail⟩ := List.pairwise_cons.1 sorted
    rcases List.mem_cons.1 listed with here | later
    · simp [find, ← here]
    · have distinct : key ≠ head.1 := fun same => List.lt_irrefl _ (same ▸ above _ later)
      simpa [find, distinct] using ih tail later

/-- The entries are the keys with the values found under them. -/
theorem mem_entries_iff {dict : Dict α} :
    (key, value) ∈ dict.entries ↔ dict.get? key = some value :=
  ⟨find_of_mem dict.sorted, mem_of_find⟩

/-- A key of a found value is one of the keys. -/
theorem mem_keys_of_get? {dict : Dict α} (found : dict.get? key = some value) : key ∈ dict.keys :=
  mem_keys_iff.2 (by rw [found, Option.isSome_some])

/-- No key occurs twice. -/
theorem nodup_keys (dict : Dict α) : dict.keys.Nodup := by
  refine List.pairwise_map.2 (dict.sorted.imp fun below same => ?_)
  rw [same] at below
  exact List.lt_irrefl _ below

/-- A change of all values keeps the keys. -/
@[simp]
theorem keys_mapValues {β : Type} (change : α → β) (dict : Dict α) :
    (dict.mapValues change).keys = dict.keys := by
  simp [keys, mapValues]

/-- Dictionaries in which every key finds the same are equal. -/
theorem ext_get? {first second : Dict α} (same : ∀ key, first.get? key = second.get? key) :
    first = second := by
  have irreflexive : Std.Irrefl fun left right : Text × α => left.1 < right.1 :=
    ⟨fun entry => List.lt_irrefl entry.1⟩
  have antisymmetric : Std.Antisymm fun left right : Text × α => left.1 < right.1 :=
    ⟨fun _ _ below above => absurd below (List.lt_asymm above)⟩
  have entries : first.entries = second.entries := by
    refine List.Pairwise.eq_of_mem_iff first.sorted second.sorted ?_
    rintro ⟨key, value⟩
    rw [mem_entries_iff, mem_entries_iff, same]
  cases first
  cases second
  cases entries
  rfl

/-- A key that is not inserted finds what it found. -/
theorem get?_foldl_insert_of_notMem (absent : key ∉ entries.map (·.1)) (dict : Dict α) :
    (entries.foldl (fun dict entry => dict.insert entry.1 entry.2) dict).get? key =
      dict.get? key := by
  induction entries generalizing dict with
  | nil => rfl
  | cons head rest ih =>
    obtain ⟨other, others⟩ := not_or.1 (mt List.mem_cons.2 absent)
    rw [List.foldl_cons, ih others, get?_insert, if_neg other]

/-- A key that is inserted once finds its value. -/
theorem get?_foldl_insert_of_mem (distinct : (entries.map (·.1)).Nodup)
    (listed : (key, value) ∈ entries) (dict : Dict α) :
    (entries.foldl (fun dict entry => dict.insert entry.1 entry.2) dict).get? key =
      some value := by
  induction entries generalizing dict with
  | nil => cases listed
  | cons head rest ih =>
    obtain ⟨fresh, others⟩ := List.nodup_cons.1 distinct
    rw [List.foldl_cons]
    rcases List.mem_cons.1 listed with rfl | later
    · rw [get?_foldl_insert_of_notMem fresh, get?_insert, if_pos rfl]
    · exact ih others later _

/-- The entries of a dictionary make it again, in whatever order they are inserted. -/
theorem ofList_of_perm {dict : Dict α} (order : entries.Perm dict.entries) :
    ofList entries = dict := by
  have distinct : (entries.map (·.1)).Nodup := (order.map _).nodup_iff.2 dict.nodup_keys
  refine ext_get? fun key => ?_
  cases found : dict.get? key with
  | some value =>
    have listed := order.mem_iff.2 (mem_entries_iff.2 found)
    exact get?_foldl_insert_of_mem distinct listed empty
  | none =>
    have absent : key ∉ entries.map (·.1) := by
      intro listed
      have key := mem_keys_iff.1 ((order.map _).mem_iff.1 listed)
      rw [found] at key
      cases key
    exact get?_foldl_insert_of_notMem absent empty

end ApiPages.Dict
