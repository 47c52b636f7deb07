import ApiPages.Proofs.PageFiles
import ApiPages.Proofs.PagePlaces

/-!
# Where a run changes files

However a run with input files ends, it changes no file but those of the pages that it has written.
These stand directly in the directory of the pages unless the name of a namespace leads away from
there by its slashes.
-/
namespace ApiPages

/-- A place holds a file that was not there before, or not with the same contents. -/
def FileChanged (before after : FileSystem) (place : Place) : Prop :=
  ∃ contents, after.at? place = some (.file contents) ∧ before.at? place ≠ some (.file contents)

/-- A place directly in a directory. -/
def Place.Inside (directory place : Place) : Prop := ∃ name, place = directory ++ [name]

/-- The name of a page leads back to the directory exactly if its file stands directly in there. -/
theorem inside_pagePath_iff (system : FileSystem) {output : Path} (named : output ≠ [])
    (name : Text) :
    Place.Inside (system.placeOf output) (system.placeOf (pagePath output name)) ↔
      LeadsBack (system.placeOf output) name := by
  rw [placeOf_pagePath system named, LeadsBack]
  constructor
  · rintro ⟨file, same⟩
    exact (List.append_inj' same rfl).1
  · intro back
    exact ⟨_, by rw [back]⟩

/-- A file that a run with input files changes is that of a namespace, and the directory of the
pages stands then. -/
theorem FileRequest.of_fileChanged {arguments : List Text} {invocation : Invocation}
    {output : Path} (request : FileRequest arguments invocation output) {world : World}
    {place : Place}
    (changed : FileChanged world.files ((run World.host arguments).run world).2.files place) :
    ((run World.host arguments).run world).2.files.at? (world.files.placeOf output) =
        some .directory ∧
      ∃ material prepared,
        World.perform (gather World.host invocation output) world = (.ok material, prepared) ∧
        ∃ space ∈ material.namespaces.keys,
          place = world.files.placeOf (pageFile output space) := by
  obtain ⟨contents, stands, other⟩ := changed
  rcases request.run_written world with ⟨-, adds⟩ | ⟨options, material, prepared, result, done,
      left, -, gathered, adds, opened, -, written⟩
  · exact absurd ((adds.files place contents).1 stands) other
  · refine ⟨written.wrote.grows.directory opened, material, prepared, gathered, ?_⟩
    have differs : ((run World.host arguments).run world).2.files.at? place ≠
        prepared.files.at? place := by
      rw [stands]
      exact fun same => other ((adds.files place contents).1 same.symm)
    obtain ⟨write, listed, same⟩ := written.wrote.exists_of_at?_ne differs
    obtain ⟨page, among, rfl⟩ := List.mem_map.1 listed
    have entry : page ∈ (material.pages options).entries := by
      rw [written.all]
      exact List.mem_append_left _ among
    refine ⟨page.1, ?_, ?_⟩
    · rw [← material.keys_pages options]
      exact List.mem_map_of_mem entry
    · rw [← same, adds.grows.placeOf_eq]
      rfl

/-- Every file that a run with input files changes is that of a namespace. So all of them stand
directly in the directory of the pages exactly if the namespaces whose files it changes lead back
there, which those without a slash do. -/
theorem run_changes_inside_iff {arguments : List Text} {invocation : Invocation} {output : Path}
    (request : FileRequest arguments invocation output) (world : World) :
    let after := ((run World.host arguments).run world).2
    let gathered := (World.perform (gather World.host invocation output) world).1
    let directory := world.files.placeOf output
    let place (space : Text) := world.files.placeOf (pageFile output space)
    (∀ changed, FileChanged world.files after.files changed →
      after.files.at? directory = some .directory ∧
      ∃ material, gathered = .ok material ∧
        ∃ space ∈ material.namespaces.keys, changed = place space) ∧
    ((∀ changed, FileChanged world.files after.files changed → directory.Inside changed) ↔
      ∀ material, gathered = .ok material → ∀ space ∈ material.namespaces.keys,
        FileChanged world.files after.files (place space) →
        LeadsBack directory (Markdown.pageName space)) ∧
    ∀ material, gathered = .ok material → (∀ space ∈ material.namespaces.keys, '/' ∉ space) →
      ∀ changed, FileChanged world.files after.files changed → directory.Inside changed := by
  intro after gathered directory place
  have inside := inside_pagePath_iff world.files request.output_ne_nil
  have spaces : ∀ changed, FileChanged world.files after.files changed →
      after.files.at? directory = some .directory ∧
      ∃ material, gathered = .ok material ∧
        ∃ space ∈ material.namespaces.keys, changed = place space := by
    intro changed differs
    obtain ⟨opened, material, prepared, performed, listed⟩ := request.of_fileChanged differs
    exact ⟨opened, material, congrArg Prod.fst performed, listed⟩
  refine ⟨spaces, ⟨fun within material _ space _ changed => ?_, fun back changed differs => ?_⟩,
    fun material found slashless changed differs => ?_⟩
  · exact (inside _).1 (within _ changed)
  · obtain ⟨-, material, found, space, listed, rfl⟩ := spaces changed differs
    exact (inside _).2 (back material found space listed differs)
  · obtain ⟨-, other, same, space, listed, rfl⟩ := spaces changed differs
    obtain rfl := Except.ok.inj (found.symm.trans same)
    exact ⟨_, placeOf_pagePath_of_notMem world.files request.output_ne_nil
      (notMem_pageName (slashless space listed))⟩

set_option maxRecDepth 100000 in
/-- The files that are made for two namespaces without slashes stand in the directory of the
pages. -/
theorem run_changes_inside_iff_of_two :
    let world := World.ofFiles [("a.xml", "<doc><members><member name=\"T:Shapes.Circle\"/>" ++
      "<member name=\"T:Red\"/></members></doc>")] ""
    let output := "out".toList
    let invocation : Invocation := { inputs := ["a.xml".toList], output := some output }
    let arguments := ["-o".toList, output, "a.xml".toList]
    let after := ((run World.host arguments).run world).2
    FileRequest arguments invocation output ∧
    FileChanged world.files after.files ["w".toList, "out".toList, "_global.md".toList] ∧
    FileChanged world.files after.files ["w".toList, "out".toList, "Shapes.md".toList] ∧
    after.files.at? (world.files.placeOf output) = some .directory ∧
    ∀ changed, FileChanged world.files after.files changed →
      (world.files.placeOf output).Inside changed := by
  intro world output invocation arguments after
  have request : FileRequest arguments invocation output := ⟨by decide +kernel, by decide, rfl⟩
  have unnamed : after.files.at? ["w".toList, "out".toList, "_global.md".toList] =
      some (.file (.text "---\n#### Type: <a name=\".red\"></a>Red\n\n\n\n".toList)) := by
    decide +kernel
  have shapes : after.files.at? ["w".toList, "out".toList, "Shapes.md".toList] =
      some (.file (.text
        "---\n#### Type: <a name=\"shapes.circle\"></a>Circle\n\n\n\n".toList)) := by
    decide +kernel
  have differs : FileChanged world.files after.files
      ["w".toList, "out".toList, "_global.md".toList] := ⟨_, unnamed, by decide⟩
  have spaces : (World.perform (gather World.host invocation output) world).1.toOption.map
      (·.namespaces.keys) = some [[], "Shapes".toList] := by decide +kernel
  obtain ⟨changes, -, slashless⟩ := run_changes_inside_iff request world
  obtain ⟨opened, material, gathered, -⟩ := changes _ differs
  rw [gathered] at spaces
  have keys : material.namespaces.keys = [[], "Shapes".toList] := Option.some.inj spaces
  refine ⟨request, differs, ⟨_, shapes, by decide⟩, opened, slashless material gathered ?_⟩
  rw [keys]
  decide

set_option maxRecDepth 100000 in
/-- A namespace that begins with two dots makes a run write beside the directory of its pages. -/
theorem run_changes_outside_of_dots :
    let world := World.ofFiles [("a.xml",
      "<doc><members><member name=\"T:../evil.X\"/></members></doc>")] ""
    let output := "out".toList
    let invocation : Invocation := { inputs := ["a.xml".toList], output := some output }
    let arguments := ["-o".toList, output, "a.xml".toList]
    let after := (run World.host arguments).run world
    let page : Place := ["w".toList, "evil.md".toList]
    FileRequest arguments invocation output ∧ after.1 = .done ∧
    world.files.placeOf output = ["w".toList, "out".toList] ∧
    FileChanged world.files after.2.files page ∧ ¬ (world.files.placeOf output).Inside page := by
  intro world output invocation arguments after page
  have place : world.files.placeOf output = ["w".toList, "out".toList] := by decide +kernel
  have stands : after.2.files.at? page = some (.file (.text
      "---\n#### Type: <a name=\"../evil.x\"></a>X\n\n\n\n".toList)) := by decide +kernel
  refine ⟨⟨by decide +kernel, by decide, rfl⟩, by decide +kernel, place,
    ⟨_, stands, by decide⟩, ?_⟩
  rintro ⟨name, same⟩
  rw [place] at same
  exact absurd (congrArg List.length same) (by simp [page])

end ApiPages
