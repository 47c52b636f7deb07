import Mathlib.Data.List.Basic
import ApiPages.Proofs.Resolution
import ApiPages.Source

/-!
# What the components of a path decide

Two spellings of a path differ only in what has no component: repeated slashes, and dots that do not
begin the path. So the components alone decide the place that a path spells, the name of the entry
that it ends in and whether that is a documentation file.
-/
namespace ApiPages

/-- The place to which a component leads from a place. -/
def Component.advance (place : Place) : Component → Place
  | root | here => place
  | up => place.dropLast
  | entry name => place ++ [name]

/-- A piece is never the root. -/
theorem Component.ofPiece?_ne_root (piece : Text) : ofPiece? piece ≠ some root := by
  rw [ofPiece?]
  split
  · nofun
  split
  · nofun
  · nofun

/-- The piece of an entry is its name, and not one of those that have another meaning. -/
theorem Component.of_ofPiece?_entry {piece name : Text}
    (component : ofPiece? piece = some (.entry name)) :
    piece = name ∧ piece ≠ [] ∧ piece ≠ ['.'] ∧ piece ≠ ['.', '.'] := by
  rw [ofPiece?] at component
  split at component
  · cases component
  rename_i spelled
  split at component
  · cases component
  rename_i notUp
  obtain rfl : piece = name := by simpa using component
  exact ⟨rfl, (not_or.1 spelled).1, (not_or.1 spelled).2, notUp⟩

/-- Pieces lead where their components lead. -/
theorem Place.resolve_eq_foldl (place : Place) {pieces : List Text}
    (named : ∀ piece ∈ pieces, piece ≠ []) :
    place.resolve pieces =
      (pieces.filterMap Component.ofPiece?).foldl Component.advance place := by
  induction pieces generalizing place with
  | nil => rfl
  | cons piece rest ih =>
    obtain ⟨own, others⟩ := List.forall_mem_cons.1 named
    rw [resolve_cons, ih _ others, List.filterMap_cons, Component.ofPiece?, step]
    by_cases single : piece = ['.']
    · simp [single]
    by_cases double : piece = ['.', '.']
    · simp [double, Component.advance]
    · simp [own, single, double, Component.advance]

namespace Path

/-- The components of the pieces of a path. -/
def steps (path : Path) : List Component := path.pieces.filterMap Component.ofPiece?

/-- The pieces of a path lead where its components lead. -/
theorem resolve_pieces (place : Place) (path : Path) :
    place.resolve path.pieces = path.steps.foldl Component.advance place := by
  refine Place.resolve_eq_foldl place fun piece listed => ?_
  simpa using (List.mem_filter.1 listed).2

/-- An empty piece has no component. -/
theorem steps_eq (path : Path) :
    path.steps = (path.splitOn '/').filterMap Component.ofPiece? := by
  rw [steps, pieces, List.filterMap_filter]
  refine List.filterMap_congr fun piece _ => ?_
  by_cases empty : piece = [] <;> simp [empty, Component.ofPiece?]

/-- A path without slashes is relative. -/
theorem isAbsolute_of_notMem {path : Path} (slashless : '/' ∉ path) : path.isAbsolute = false := by
  cases path with
  | nil => rfl
  | cons head rest =>
    have other : head ≠ '/' := fun slash => slashless (slash ▸ List.mem_cons_self)
    simp [isAbsolute, other]

/-- A path inside another one is written behind it. -/
theorem exists_join_eq (outer : Path) {inner : Path} (relative : inner.isAbsolute = false) :
    ∃ front, outer.join inner = front ++ inner := by
  rw [join, if_neg (by simp [relative])]
  split
  · exact ⟨outer, rfl⟩
  · exact ⟨outer ++ ['/'], by simp⟩

/-- The components of a path inside another one follow those of the other. -/
theorem steps_join {outer inner : Path} (relative : inner.isAbsolute = false) :
    (outer.join inner).steps = outer.steps ++ inner.steps := by
  rw [steps, pieces_join relative, List.filterMap_append, steps, steps]

/-- A path without slashes has the component of its only piece. -/
theorem steps_of_notMem {path : Path} (slashless : '/' ∉ path) :
    path.steps = (Component.ofPiece? path).toList := by
  rw [steps_eq, List.splitOn_eq_singleton slashless, List.filterMap_cons]
  cases Component.ofPiece? path <;> rfl

/-- Only an absolute path begins with an empty piece that others follow. -/
theorem splitOn_of_isAbsolute {path : Path} :
    path.isAbsolute = true ↔ ∃ piece rest, path.splitOn '/' = [] :: piece :: rest := by
  cases path with
  | nil => exact iff_of_false nofun nofun
  | cons head rest =>
    rw [List.splitOn_cons_eq_if_modifyHead]
    obtain ⟨piece, pieces, split⟩ := List.exists_cons_of_ne_nil (List.splitOn_ne_nil '/' rest)
    by_cases slash : head = '/'
    · simp [isAbsolute, slash, split]
    · simp [isAbsolute, slash, split]

/-- The components of a path are those of its pieces, behind the root if the path is absolute, or
else possibly behind a leading dot. -/
theorem exists_components_eq (path : Path) :
    ∃ start, path.components = start ++ path.steps ∧
      (path.isAbsolute = true ∧ start = [.root] ∨
        path.isAbsolute = false ∧ (start = [] ∨ start = [.here])) := by
  rw [components, steps_eq]
  have absolute := @splitOn_of_isAbsolute path
  rw [split]
  split
  · rename_i piece rest pieces
    refine ⟨[.root], ?_, .inl ⟨absolute.2 ⟨_, _, pieces⟩, rfl⟩⟩
    rw [pieces]
    rfl
  · rename_i rest pieces
    have relative : path.isAbsolute = false := by
      rw [← Bool.not_eq_true, absolute, pieces]
      nofun
    refine ⟨[.here], ?_, .inr ⟨relative, .inr rfl⟩⟩
    rw [pieces]
    cases rest <;> rfl
  · rename_i other _
    have relative : path.isAbsolute = false := by
      rw [← Bool.not_eq_true, absolute]
      rintro ⟨piece, rest, pieces⟩
      exact other _ _ pieces
    exact ⟨[], rfl, .inr ⟨relative, .inl rfl⟩⟩

/-- A path is absolute if its first component is the root. -/
theorem isAbsolute_iff {path : Path} :
    path.isAbsolute = true ↔ path.components.head? = some .root := by
  obtain ⟨start, whole, begins⟩ := exists_components_eq path
  have further : path.steps.head? ≠ some .root := by
    intro first
    obtain ⟨piece, -, component⟩ := List.mem_filterMap.1 (List.mem_of_head? first)
    exact Component.ofPiece?_ne_root piece component
  rw [whole]
  rcases begins with ⟨absolute, rfl⟩ | ⟨relative, rfl | rfl⟩
  · exact iff_of_true absolute rfl
  · exact iff_of_false (by simp [relative]) further
  · exact iff_of_false (by simp [relative]) nofun

/-- The name of the entry that a path ends in is told from its pieces. -/
theorem fileName?_eq_some_iff {path : Path} {name : Text} :
    path.fileName? = some name ↔ path.steps.getLast? = some (.entry name) := by
  have last : path.fileName? = some name ↔ path.components.getLast? = some (.entry name) := by
    rw [fileName?]
    split
    · rename_i found ends
      simp [ends]
    · rename_i other
      exact iff_of_false nofun fun ends => other name ends
  obtain ⟨start, whole, begins⟩ := exists_components_eq path
  rw [last, whole, List.getLast?_append]
  cases ends : path.steps.getLast? with
  | some component => simp
  | none => rcases begins with ⟨-, rfl⟩ | ⟨-, rfl | rfl⟩ <;> simp

/-- A path leads to a documentation file by the name of the entry that it ends in. -/
theorem isSupported_iff {path : Path} :
    isSupported path = true ↔ ∃ name, path.steps.getLast? = some (.entry name) ∧
      extensionOf? name = some "xml".toList := by
  rw [isSupported, decide_eq_true_eq, extension?, Option.bind_eq_some_iff]
  simp only [fileName?_eq_some_iff]

/-- Paths with the same components are documentation files or not alike. -/
theorem isSupported_congr {first second : Path} (same : first.components = second.components) :
    isSupported first = isSupported second := by
  rw [isSupported, isSupported, extension?, extension?, fileName?, fileName?, same]

end Path

namespace FileSystem

/-- The place that a path spells is told from its components. -/
theorem placeOf_eq_foldl (system : FileSystem) (path : Path) :
    system.placeOf path =
      path.components.foldl Component.advance
        (if path.components.head? = some .root then [] else system.working) := by
  obtain ⟨start, whole, begins⟩ := path.exists_components_eq
  have stays : ∀ place, start.foldl Component.advance place = place := by
    intro place
    rcases begins with ⟨-, rfl⟩ | ⟨-, rfl | rfl⟩ <;> rfl
  rw [placeOf, Path.resolve_pieces, whole, List.foldl_append, stays,
    ← whole, FileSystem.start]
  simp only [Path.isAbsolute_iff]

/-- Spellings with the same components spell the same place. -/
theorem placeOf_congr (system : FileSystem) {first second : Path}
    (same : first.components = second.components) :
    system.placeOf first = system.placeOf second := by
  rw [placeOf_eq_foldl, placeOf_eq_foldl, same]

/-- The place of a path that ends in an entry ends in its name. -/
theorem exists_placeOf_eq (system : FileSystem) {path : Path} {name : Text}
    (ends : path.steps.getLast? = some (.entry name)) :
    ∃ outer, system.placeOf path = outer ++ [name] := by
  obtain ⟨start, whole, -⟩ := path.exists_components_eq
  obtain ⟨front, steps⟩ := List.getLast?_eq_some_iff.1 ends
  rw [placeOf_eq_foldl, whole, steps, ← List.append_assoc, List.foldl_append]
  exact ⟨_, rfl⟩

end FileSystem

end ApiPages
