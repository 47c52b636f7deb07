import ApiPages.Proofs.Resolution

/-!
# Changes to a file system

Making a directory adds an entry where there was none, and writing a file changes what stands at one
place, where there was a file or nothing. Both let the file system grow, so whatever else a path led
to stays where it is.
-/
namespace ApiPages.FileSystem

variable {system before after : FileSystem} {place : Place} {path : Path}

/-- What stands at each place after an entry has been put. -/
theorem at?_put (system : FileSystem) (inside : place ≠ []) (entry : Entry) (sought : Place) :
    (system.put place entry).at? sought =
      if sought = place then some entry else system.at? sought := by
  by_cases here : sought = place
  · subst here
    simp [at?, put, inside]
  · have kept : (fun old : Place × Entry => !decide (old.1 = place) && decide (old.1 = sought)) =
        fun old => decide (old.1 = sought) := by
      funext old
      by_cases same : old.1 = sought <;> simp [same, here]
    simp [at?, put, here, Ne.symm here, List.find?_filter, kept]

/-- A place where no directory stands is below the root. -/
theorem ne_nil_of_at?_ne (free : system.at? place ≠ some .directory) : place ≠ [] := by
  rintro rfl
  exact free rfl

/-- A file system grows when an entry is put where there was none, or one of its kind. -/
theorem grows_put {entry : Entry} (inside : place ≠ [])
    (fits : ∀ old, system.at? place = some old → old.kind = entry.kind) :
    system.Grows (system.put place entry) := by
  refine ⟨rfl, fun {sought old} stands => ?_⟩
  rw [at?_put system inside]
  by_cases here : sought = place
  · subst here
    exact ⟨entry, if_pos rfl, (fits old stands).symm⟩
  · exact ⟨old, by rw [if_neg here, stands], rfl⟩

/-! ### Directories -/

/-- A file system to which directories are added grows and keeps its files. -/
structure AddsDirectories (before after : FileSystem) : Prop where
  /-- Nothing vanishes. -/
  grows : before.Grows after
  /-- The files are the same and hold the same. -/
  files : ∀ place contents,
    after.at? place = some (.file contents) ↔ before.at? place = some (.file contents)
  /-- The names that are added have no slash. -/
  names : ∀ place name, after.at? (place ++ [name]) ≠ none →
    before.at? (place ++ [name]) ≠ none ∨ '/' ∉ name

namespace AddsDirectories

/-- A file system comes from itself by adding none. -/
theorem refl (system : FileSystem) : system.AddsDirectories system :=
  ⟨.refl system, fun _ _ => .rfl, fun _ _ => .inl⟩

/-- Directories that are added in two stages are added in one. -/
theorem trans {middle : FileSystem} (first : before.AddsDirectories middle)
    (second : middle.AddsDirectories after) : before.AddsDirectories after :=
  ⟨first.grows.trans second.grows, fun place contents =>
    (second.files place contents).trans (first.files place contents), fun place name stands =>
    (second.names place name stands).elim (first.names place name) .inr⟩

/-- A file is found where it was. -/
theorem find_file (adds : before.AddsDirectories after) {contents : Contents}
    (file : before.find path = .existing place (.file contents)) :
    after.find path = .existing place (.file contents) := by
  obtain ⟨leads, stands⟩ := leads_of_existing file
  rw [find_of_grows adds.grows leads (.inl (asksDirectory_of_find file)),
    (adds.files place contents).2 stands, Found.at]

/-- A file holds what it held. -/
theorem contents?_eq (adds : before.AddsDirectories after) {contents : Contents}
    (stored : before.contents? path = some contents) : after.contents? path = some contents := by
  obtain ⟨place, file⟩ := exists_of_contents? stored
  rw [contents?, adds.find_file file]

end AddsDirectories

/-- Making a directory adds at most this one, which is found when it has been made. -/
theorem makeDirectory_adds (system : FileSystem) (path : Path) :
    system.AddsDirectories (system.makeDirectory path).2 ∧
      ((system.makeDirectory path).1 = .made →
        (system.makeDirectory path).2.kind? path = some .directory) := by
  rw [makeDirectory]
  cases found : system.find path with
  | existing place entry => exact ⟨.refl system, nofun⟩
  | missing => exact ⟨.refl system, nofun⟩
  | blocked => exact ⟨.refl system, nofun⟩
  | vacant place =>
    obtain ⟨leads, empty⟩ := leads_of_vacant found
    have free : system.at? place ≠ some .directory := by simp [empty]
    have inside : place ≠ [] := ne_nil_of_at?_ne free
    have grows : system.Grows (system.put place .directory) :=
      grows_put inside (by simp [empty])
    have made : (system.put place .directory).at? place = some .directory := by
      rw [at?_put system inside, if_pos rfl]
    refine ⟨⟨grows, fun sought contents => ?_, fun outer name stands => ?_⟩, fun _ => ?_⟩
    · rw [at?_put system inside]
      by_cases here : sought = place
      · simp [here, empty]
      · rw [if_neg here]
    · rw [at?_put system inside] at stands
      by_cases here : outer ++ [name] = place
      · exact .inr (notMem_of_vacant (here ▸ found))
      · rw [if_neg here] at stands
        exact .inl stands
    · rw [kind?, find_of_grows grows leads (.inr made), made]
      rfl

/-! ### Files -/

/-- The place of the file that is written for a path, if it can be written. -/
def target? (system : FileSystem) (path : Path) : Option Place :=
  match system.find path with
  | .existing place (.file _) => some place
  | .vacant place => if asksDirectory path then none else some place
  | .existing _ .directory | .missing | .blocked => none

/-- Writing puts a file at its place or changes nothing. -/
theorem write_eq (system : FileSystem) (path : Path) (text : Text) :
    system.write path text =
      match system.target? path with
      | some place => (true, system.put place (.file (.text text)))
      | none => (false, system) := by
  rw [write, target?]
  cases system.find path with
  | existing place entry => cases entry <;> rfl
  | vacant place => cases asksDirectory path <;> rfl
  | missing | blocked => rfl

/-- What is written has a place. -/
theorem exists_target?_of_write {text : Text} (written : (system.write path text).1 = true) :
    ∃ place, system.target? path = some place := by
  rw [write_eq] at written
  cases target : system.target? path with
  | none => simp [target] at written
  | some place => exact ⟨place, rfl⟩

/-- A file can be written for a path that leads to a file or to nothing, and asks for no
directory. -/
theorem target?_eq_some_iff :
    system.target? path = some place ↔
      (system.find path).place? = some place ∧ asksDirectory path = false ∧
        system.at? place ≠ some .directory := by
  rw [target?]
  constructor
  · intro target
    cases found : system.find path with
    | existing there entry =>
      cases entry with
      | directory => simp [found] at target
      | file contents =>
        obtain rfl : there = place := by simpa [found] using target
        obtain ⟨-, stands⟩ := leads_of_existing found
        exact ⟨rfl, asksDirectory_of_find found, by simp [stands]⟩
    | vacant there =>
      cases asked : asksDirectory path with
      | true => simp [found, asked] at target
      | false =>
        obtain rfl : there = place := by simpa [found, asked] using target
        obtain ⟨-, empty⟩ := leads_of_vacant found
        exact ⟨rfl, rfl, by simp [empty]⟩
    | missing | blocked => simp [found] at target
  · rintro ⟨leads, plain, free⟩
    rw [find_eq_at leads]
    cases stands : system.at? place with
    | none => simp [Found.at, plain]
    | some entry =>
      cases entry with
      | file contents => simp [Found.at]
      | directory => exact absurd stands free

/-- A written file lets the file system grow. -/
theorem grows_of_target? (target : system.target? path = some place) (contents : Contents) :
    system.Grows (system.put place (.file contents)) := by
  obtain ⟨-, -, free⟩ := target?_eq_some_iff.1 target
  refine grows_put (ne_nil_of_at?_ne free) fun old stands => ?_
  cases old with
  | file contents => rfl
  | directory => exact absurd stands free

/-- What a writable path leads to later. -/
theorem find_of_target? (grows : before.Grows after) (target : before.target? path = some place) :
    after.find path = .at place (after.at? place) := by
  obtain ⟨leads, plain, -⟩ := target?_eq_some_iff.1 target
  exact find_of_grows grows leads (.inl plain)

/-- A file can be written where it could before, unless a directory has been made there. -/
theorem target?_of_grows (grows : before.Grows after) (target : before.target? path = some place)
    (free : after.at? place ≠ some .directory) : after.target? path = some place := by
  obtain ⟨-, plain, -⟩ := target?_eq_some_iff.1 target
  refine target?_eq_some_iff.2 ⟨?_, plain, free⟩
  rw [find_of_target? grows target, Found.place?_at]

end ApiPages.FileSystem
