import ApiPages.CommandLine.Output
import ApiPages.Proofs.Cutting
import ApiPages.Proofs.Resolution

/-!
# Places of pages

The file of a page stands directly in the directory of the pages if the name of the page has no
slash. A slash in the name leads on from there, or from the root if it begins the name, and the
file stands directly in the directory of the pages only if the part before the last slash leads back
to it.
-/
namespace ApiPages

/-- The pieces of the path of a page before the name of its file. -/
def outerPieces (name : Text) : List Text := (Path.pieces (name ++ ".md".toList)).dropLast

/-- Where the path of a page starts. -/
def pageStart (directory : Place) (name : Text) : Place :=
  if Path.isAbsolute name then [] else directory

/-- Whether the part of a name before its last slash leads back to the directory of the pages. -/
def LeadsBack (directory : Place) (name : Text) : Prop :=
  Place.resolve (pageStart directory name) (outerPieces name) = directory

instance (directory : Place) (name : Text) : Decidable (LeadsBack directory name) :=
  inferInstanceAs (Decidable (_ = _))

/-- The name of the file of a page follows the last slash of the name of the page. -/
theorem pieces_page (name : Text) :
    Path.pieces (name ++ ".md".toList) =
      outerPieces name ++ [name.afterLast '/' ++ ".md".toList] := by
  have last : ∃ outer, Path.pieces (name ++ ".md".toList) =
      outer ++ [name.afterLast '/' ++ ".md".toList] := by
    have slashless : '/' ∉ name.afterLast '/' ++ ".md".toList := by
      simpa using Text.notMem_afterLast '/' name
    have single := Path.pieces_of_notMem slashless (by simp)
    by_cases slash : '/' ∈ name
    · obtain ⟨front, split⟩ := Text.exists_eq_append_afterLast slash
      have page : name ++ ".md".toList =
          front ++ '/' :: (name.afterLast '/' ++ ".md".toList) := by
        rw [← List.cons_append, ← List.append_assoc, ← split]
      exact ⟨Path.pieces front, by rw [page, Path.pieces_append_cons, single]⟩
    · refine ⟨[], ?_⟩
      rw [Text.afterLast_of_notMem slash] at single ⊢
      exact single
  obtain ⟨outer, pieces⟩ := last
  rw [outerPieces, pieces, List.dropLast_concat]

/-- The page of a name has an absolute path if the name is one. -/
theorem isAbsolute_page (name : Text) :
    Path.isAbsolute (name ++ ".md".toList) = Path.isAbsolute name := by
  cases name <;> rfl

/-- The name of a file leads one step down. -/
theorem step_file (place : Place) (name : Text) :
    place.step (name ++ ".md".toList) = place ++ [name ++ ".md".toList] := by
  have long : 2 < (name ++ ".md".toList).length := by
    rw [List.length_append]
    change 2 < name.length + 3
    omega
  have notHere : name ++ ".md".toList ≠ ['.'] := by
    intro same
    rw [same] at long
    exact absurd long (by decide)
  have notUp : name ++ ".md".toList ≠ ['.', '.'] := by
    intro same
    rw [same] at long
    exact absurd long (by decide)
  rw [Place.step, if_neg notHere, if_neg notUp]

/-- The place of the file of a page. -/
theorem placeOf_pagePath (system : FileSystem) {output : Path} (named : output ≠ []) (name : Text) :
    system.placeOf (pagePath output name) =
      Place.resolve (pageStart (system.placeOf output) name) (outerPieces name) ++
        [name.afterLast '/' ++ ".md".toList] := by
  cases absolute : Path.isAbsolute name with
  | true =>
    have whole : pagePath output name = name ++ ".md".toList := by
      rw [pagePath, Path.join, isAbsolute_page, absolute, if_pos rfl]
    rw [whole, FileSystem.placeOf, FileSystem.start, isAbsolute_page, pageStart, absolute,
      if_pos rfl, if_pos rfl, pieces_page, Place.resolve_append, Place.resolve_cons,
      Place.resolve_nil, step_file]
  | false =>
    rw [pagePath, FileSystem.placeOf_join system named (by rw [isAbsolute_page, absolute]),
      pageStart, absolute, pieces_page, Place.resolve_append, Place.resolve_cons,
      Place.resolve_nil, step_file]
    rfl

/-- The file of a page whose name has no slash stands directly in the directory of the pages. -/
theorem placeOf_pagePath_of_notMem (system : FileSystem) {output : Path} (named : output ≠ [])
    {name : Text} (slashless : '/' ∉ name) :
    system.placeOf (pagePath output name) = system.placeOf output ++ [name ++ ".md".toList] := by
  have relative : Path.isAbsolute name = false := by
    cases name with
    | nil => rfl
    | cons head rest =>
      obtain ⟨other, -⟩ := not_or.1 (mt List.mem_cons.2 slashless)
      simpa [Path.isAbsolute] using Ne.symm other
  have outer : outerPieces name = [] := by
    rw [outerPieces, Path.pieces_of_notMem (by simpa using slashless) (by simp)]
    rfl
  rw [placeOf_pagePath system named, pageStart, relative, outer, Text.afterLast_of_notMem slashless]
  rfl

/-- The name of a page has no slash if its namespace has none. -/
theorem notMem_pageName {space : Text} (slashless : '/' ∉ space) :
    '/' ∉ Markdown.pageName space := by
  rw [Markdown.pageName]
  split
  · decide
  · exact slashless

end ApiPages
