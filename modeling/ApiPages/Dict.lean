import ApiPages.Text.Basic

/-!
# Sorted dictionaries

A dictionary lists its entries in ascending order of their keys, compared by code points, so two
dictionaries are equal when they hold the same values under the same keys. The laws give the value
found under each key after an insertion, after a value has been added to a list of values, and after
a change of all values.
-/
namespace ApiPages

/-- Values under distinct texts, in ascending order of those texts. -/
structure Dict (α : Type) where
  /-- The keys with their values. -/
  entries : List (Text × α)
  /-- Every key comes before all later ones. -/
  sorted : entries.Pairwise fun left right => left.1 < right.1
deriving DecidableEq

namespace Dict

variable {α β : Type}

/-- The dictionary without entries. -/
def empty : Dict α := ⟨[], .nil⟩

instance : Inhabited (Dict α) := ⟨empty⟩

/-- The keys in ascending order. -/
def keys (dict : Dict α) : List Text := dict.entries.map (·.1)

/-- The values in the order of their keys. -/
def values (dict : Dict α) : List α := dict.entries.map (·.2)

/-- The number of entries. -/
def size (dict : Dict α) : Nat := dict.entries.length

/-- The value of the first entry with a key. -/
def find (sought : Text) : List (Text × α) → Option α
  | [] => none
  | (key, value) :: rest => if sought = key then some value else find sought rest

/-- The value under a key. -/
def get? (dict : Dict α) (key : Text) : Option α := find key dict.entries

/-- Puts an entry in its place, over the one with the same key. -/
def insertEntry (key : Text) (value : α) : List (Text × α) → List (Text × α)
  | [] => [(key, value)]
  | (found, old) :: rest =>
    if key < found then (key, value) :: (found, old) :: rest
    else if key = found then (key, value) :: rest
    else (found, old) :: insertEntry key value rest

/-- An insertion adds no key but its own. -/
theorem mem_insertEntry {key : Text} {value : α} {entries : List (Text × α)} {entry : Text × α}
    (member : entry ∈ insertEntry key value entries) : entry = (key, value) ∨ entry ∈ entries := by
  induction entries with
  | nil => exact .inl (by simpa [insertEntry] using member)
  | cons head rest ih =>
    simp only [insertEntry] at member
    split at member
    · simpa using member
    · split at member
      · rcases List.mem_cons.1 member with here | later
        · exact .inl here
        · exact .inr (List.mem_cons_of_mem _ later)
      · rcases List.mem_cons.1 member with here | later
        · exact .inr (by simp [here])
        · exact (ih later).imp_right (List.mem_cons_of_mem _)

/-- An insertion keeps the entries sorted. -/
theorem insertEntry_sorted (key : Text) (value : α) {entries : List (Text × α)}
    (sorted : entries.Pairwise fun left right => left.1 < right.1) :
    (insertEntry key value entries).Pairwise fun left right => left.1 < right.1 := by
  induction entries with
  | nil => simp [insertEntry]
  | cons head rest ih =>
    obtain ⟨above, tail⟩ := List.pairwise_cons.1 sorted
    simp only [insertEntry]
    split
    · rename_i below
      refine List.pairwise_cons.2 ⟨fun entry member => ?_, sorted⟩
      rcases List.mem_cons.1 member with rfl | later
      · exact below
      · exact List.lt_trans below (above entry later)
    · rename_i notBelow
      split
      · rename_i same
        exact List.pairwise_cons.2 ⟨fun entry member => same ▸ above entry member, tail⟩
      · rename_i distinct
        refine List.pairwise_cons.2 ⟨fun entry member => ?_, ih tail⟩
        rcases mem_insertEntry member with rfl | later
        · exact (List.le_iff_lt_or_eq.1 (List.not_lt.1 notBelow)).resolve_right (Ne.symm distinct)
        · exact above entry later

/-- Sets the value under a key. -/
def insert (dict : Dict α) (key : Text) (value : α) : Dict α :=
  ⟨insertEntry key value dict.entries, insertEntry_sorted key value dict.sorted⟩

/-- Inserts entries one after the other, so that of two with the same key the later one counts. -/
def ofList (entries : List (Text × α)) : Dict α :=
  entries.foldl (fun dict entry => dict.insert entry.1 entry.2) empty

/-- Changes every value. -/
def mapValues (change : α → β) (dict : Dict α) : Dict β where
  entries := dict.entries.map fun entry => (entry.1, change entry.2)
  sorted := List.pairwise_map.2 dict.sorted

/-- Puts a value behind the list under a key, which is begun if there is none. -/
def push (dict : Dict (List α)) (key : Text) (value : α) : Dict (List α) :=
  dict.insert key ((dict.get? key).getD [] ++ [value])

/-- The value found after an insertion into a list of entries. -/
theorem find_insertEntry (key sought : Text) (value : α) (entries : List (Text × α)) :
    find sought (insertEntry key value entries) =
      if sought = key then some value else find sought entries := by
  induction entries with
  | nil => rfl
  | cons head rest ih =>
    obtain ⟨found, old⟩ := head
    simp only [insertEntry]
    split
    · rfl
    · split
      · rename_i same
        subst same
        by_cases here : sought = key <;> simp [find, here]
      · rename_i distinct
        by_cases here : sought = found
        · simp [find, here, Ne.symm distinct]
        · simp [find, here, ih]

/-- The value under a key after an insertion. -/
theorem get?_insert (dict : Dict α) (key sought : Text) (value : α) :
    (dict.insert key value).get? sought = if sought = key then some value else dict.get? sought :=
  find_insertEntry key sought value dict.entries

/-- A key is one under which a value is found. -/
theorem find_isSome_iff (sought : Text) (entries : List (Text × α)) :
    (find sought entries).isSome ↔ sought ∈ entries.map (·.1) := by
  induction entries with
  | nil => simp [find]
  | cons head rest ih => by_cases here : sought = head.1 <;> simp [find, here, ih]

/-- The keys are the texts under which a value is found. -/
theorem mem_keys_iff {dict : Dict α} {key : Text} : key ∈ dict.keys ↔ (dict.get? key).isSome :=
  (find_isSome_iff key dict.entries).symm

/-- The list under a key after a value has been put behind the list under some key. -/
theorem get?_push (dict : Dict (List α)) (key sought : Text) (value : α) :
    (dict.push key value).get? sought =
      if sought = key then some ((dict.get? key).getD [] ++ [value]) else dict.get? sought :=
  get?_insert dict key sought _

/-- The value found after all values of a list of entries have been changed. -/
theorem find_map (change : α → β) (sought : Text) (entries : List (Text × α)) :
    find sought (entries.map fun entry => (entry.1, change entry.2)) =
      (find sought entries).map change := by
  induction entries with
  | nil => rfl
  | cons head rest ih => by_cases here : sought = head.1 <;> simp [find, here, ih]

/-- The value under a key after all values have been changed. -/
theorem get?_mapValues (change : α → β) (dict : Dict α) (sought : Text) :
    (dict.mapValues change).get? sought = (dict.get? sought).map change :=
  find_map change sought dict.entries

end Dict
end ApiPages
