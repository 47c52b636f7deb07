import ApiPages.Proofs.GatheredInputs
import ApiPages.Proofs.PageFiles
import ApiPages.Proofs.PagePlaces
import ApiPages.Proofs.Replacing

/-!
# Running again

A run that is done can be run again on the files that it leaves. No page is a documentation file, so
the same documents are gathered and the same pages are written. The one file that a run both writes
and reads is the preamble in the directory of the pages: if the page of a namespace has taken its
place, the second run takes that page for a preamble, and the file grows.
-/
namespace ApiPages

variable {output : Path} {preamble : Option Text} {before after system : FileSystem}
  {place : Place} {name : Text}

/-! ### Pages are no sources -/

/-- The name of the file of a page has not the extension of documentation files. -/
theorem extensionOf?_page_ne (name : Text) :
    Path.extensionOf? (name ++ ".md".toList) ≠ some "xml".toList := by
  rw [Path.extensionOf?]
  split
  · nofun
  · nofun
  · rw [Text.afterLast_append_of_mem name (by decide)]
    decide

/-- What a row of pages puts at a place last. -/
theorem lastAt_pages (system : FileSystem) (output : Path) (preamble : Option Text)
    (pages : List (Text × Text)) (place : Place) :
    system.lastAt (pages.map (pageWrite output preamble)) place =
      (pages.reverse.find? fun page => system.placeOf (pageFile output page.1) = place).map
        fun page => pageDocument preamble page.1 page.2 := by
  rw [FileSystem.lastAt, ← List.map_reverse, List.find?_map, Option.map_map]
  rfl

/-- A place to which a page is written has the name of its file. -/
theorem exists_of_lastAt_pages {pages : List (Text × Text)} {text : Text} (named : output ≠ [])
    (last : system.lastAt (pages.map (pageWrite output preamble)) (place ++ [name]) =
      some text) :
    ∃ page ∈ pages, system.placeOf (pageFile output page.1) = place ++ [name] ∧
      name = (Markdown.pageName page.1).afterLast '/' ++ ".md".toList ∧
      text = pageDocument preamble page.1 page.2 := by
  rw [lastAt_pages] at last
  obtain ⟨page, found, rfl⟩ := Option.map_eq_some_iff.1 last
  have here : system.placeOf (pageFile output page.1) = place ++ [name] := by
    simpa using List.find?_some found
  have listed : page ∈ pages := List.mem_reverse.1 (List.mem_of_find?_eq_some found)
  refine ⟨page, listed, here, ?_, rfl⟩
  rw [pageFile, placeOf_pagePath system named] at here
  simpa using (List.append_inj' here rfl).2.symm

/-- Pages are written beside the documentation files. -/
theorem FileSystem.Wrote.keepsSources {pages : List (Text × Text)} (named : output ≠ [])
    (wrote : before.Wrote (pages.map (pageWrite output preamble)) after) :
    before.KeepsSources after where
  grows := wrote.grows
  sources place name supported contents := by
    rw [wrote.stands]
    cases last : before.lastAt (pages.map (pageWrite output preamble)) (place ++ [name]) with
    | none => rfl
    | some text =>
      obtain ⟨page, -, -, spelled, -⟩ := exists_of_lastAt_pages named last
      exact absurd (spelled ▸ supported) (extensionOf?_page_ne _)
  names place name stands := by
    rw [wrote.stands] at stands
    cases last : before.lastAt (pages.map (pageWrite output preamble)) (place ++ [name]) with
    | none =>
      rw [last] at stands
      exact .inl stands
    | some text =>
      obtain ⟨page, -, -, rfl, -⟩ := exists_of_lastAt_pages named last
      exact .inr (by simpa using Text.notMem_afterLast '/' (Markdown.pageName page.1))

/-- Writing the same row again changes nothing. -/
theorem FileSystem.Wrote.at?_again {writes : List (Path × Text)} {middle : FileSystem}
    (first : before.Wrote writes middle) (second : middle.Wrote writes after) (place : Place) :
    after.at? place = middle.at? place := by
  have same : middle.lastAt writes place = before.lastAt writes place := by
    simp only [FileSystem.lastAt, first.grows.placeOf_eq]
  rw [second.stands, first.stands, same]
  cases before.lastAt writes place <;> rfl

/-! ### The preamble of the second run -/

/-- The page of a namespace stands where a preamble is sought. -/
def TakesPreamble (system : FileSystem) (output : Path) (space : Text) : Prop :=
  (system.find (output.join preambleFile)).place? = some (system.placeOf (pageFile output space))

/-- Where a preamble is sought, if its path is not too long. -/
theorem find_preambleFile (opened : system.find output = .existing place .directory) :
    system.find (output.join preambleFile) =
      if FileSystem.maxPathSize < FileSystem.byteSize (output.join preambleFile) then .blocked
      else .at (place ++ [preambleFile]) (system.at? (place ++ [preambleFile])) := by
  have short : ¬ FileSystem.maxNameSize < FileSystem.byteSize preambleFile := by decide
  rw [FileSystem.find_join opened (by decide) (by decide)]
  simp only [short, or_false]

/-- After pages have been written, the preamble is the page that has taken its place, or else the
one before. -/
theorem FileSystem.Wrote.preamble?_eq {writes : List (Path × Text)}
    (wrote : before.Wrote writes after) (opened : before.find output = .existing place .directory) :
    after.preamble? (output.join preambleFile) =
      ((((before.find (output.join preambleFile)).place?.bind (before.lastAt writes)).map some).or
        (before.preamble? (output.join preambleFile))) := by
  have earlier := find_preambleFile opened
  have later := find_preambleFile (wrote.grows.find_directory opened)
  by_cases long : maxPathSize < byteSize (output.join preambleFile)
  · rw [if_pos long] at earlier later
    rw [preamble?, preamble?, kind?, kind?, contents?, contents?, earlier, later]
    rfl
  · rw [if_neg long] at earlier later
    rw [wrote.stands] at later
    rw [earlier, Found.place?_at, Option.bind_some]
    cases last : before.lastAt writes (place ++ [preambleFile]) with
    | none =>
      rw [last] at later
      have same : after.find (output.join preambleFile) =
          before.find (output.join preambleFile) := later.trans earlier.symm
      rw [preamble?, preamble?, kind?, kind?, contents?, contents?, same]
      rfl
    | some text =>
      rw [last] at later
      rw [preamble?, kind?, contents?, later]
      rfl

/-- A page that takes the place of the preamble has its name, so the name of the page is no shorter
than what stands for it in a preamble. -/
theorem name_of_takesPreamble {space : Text} (named : output ≠ [])
    (opened : system.find output = .existing place .directory)
    (takes : TakesPreamble system output space) :
    (Markdown.pageName space).afterLast '/' = "_prefix".toList ∧
      namePlace.length ≤ (Markdown.pageName space).length := by
  have found := find_preambleFile opened
  rw [TakesPreamble, found] at takes
  split at takes
  · cases takes
  rw [FileSystem.Found.place?_at, pageFile, placeOf_pagePath system named] at takes
  have file : preambleFile = (Markdown.pageName space).afterLast '/' ++ ".md".toList := by
    simpa using (List.append_inj' (Option.some.inj takes) rfl).2
  have split : preambleFile = "_prefix".toList ++ ".md".toList := by decide
  have last : (Markdown.pageName space).afterLast '/' = "_prefix".toList :=
    List.append_cancel_right (file.symm.trans split)
  refine ⟨last, ?_⟩
  have part : ((Markdown.pageName space).afterLast '/').length ≤
      (Markdown.pageName space).length := by
    by_cases slash : '/' ∈ Markdown.pageName space
    · obtain ⟨front, split⟩ := Text.exists_eq_append_afterLast slash
      have whole := congrArg List.length split
      rw [List.length_append, List.length_cons] at whole
      omega
    · rw [Text.afterLast_of_notMem slash]
  have sizes : namePlace.length = "_prefix".toList.length := by decide
  rw [last, ← sizes] at part
  exact part

/-- A page is longer than the preamble before it. -/
theorem length_lt_pageDocument {text space page : Text}
    (long : namePlace.length ≤ (Markdown.pageName space).length) :
    text.length < (pageDocument (some text) space page).length := by
  have kept := Text.length_le_replaceAll (by decide : namePlace ≠ []) long text
  rw [pageDocument, filled, List.length_append, List.length_cons]
  omega

/-! ### The second run -/

/-- To make a directory that exists changes nothing. -/
theorem makeDirectories_of_directory {world : World}
    (opened : world.files.kind? output = some .directory) :
    (World.host.makeDirectories output).run world = (true, world) := by
  obtain ⟨place, found⟩ := FileSystem.exists_of_kind?_directory opened
  obtain ⟨leads, -⟩ := FileSystem.leads_of_existing found
  obtain ⟨named, -, -⟩ := FileSystem.follow_of_find leads
  obtain ⟨outer, first⟩ : ∃ outer, output.ancestors = output :: outer := by
    rw [Path.ancestors]
    split
    · exact ⟨[], rfl⟩
    · exact ⟨_, rfl⟩
  obtain ⟨head, rest, rfl⟩ := List.exists_cons_of_ne_nil named
  have refused : (World.host.makeDirectory (head :: rest)).run world = (.refused, world) := by
    change ((world.files.makeDirectory (head :: rest)).1,
      { world with files := (world.files.makeDirectory (head :: rest)).2 }) = _
    rw [FileSystem.makeDirectory, found]
  have asked : (World.host.isDirectory (head :: rest)).run world = (true, world) := by
    change (world.files.kind? (head :: rest) == some .directory, world) = _
    rw [opened]
    rfl
  rw [Host.makeDirectories, first, Host.makeInside]
  · rw [StateT.run_bind, refused]
    exact asked
  · exact List.cons_ne_nil head rest

variable {invocation : Invocation} {material : Material} {world prepared : World}

/-- What is gathered is told from the files that are there by then. -/
theorem gather_ok (named : output ≠ []) (plain : invocation.preamble = none)
    (stands : ∀ input ∈ invocation.inputs, (world.files.kind? input).isSome)
    (gathered : World.perform (gather World.host invocation output) world =
      (.ok material, prepared)) :
    prepared.files.kind? output = some .directory ∧
      prepared.files.preamble? (output.join preambleFile) = some material.preamble ∧
      prepared.files.merged? invocation.inputs = some material.namespaces := by
  obtain ⟨adds, opens⟩ := makeDirectories_opens output world
  rw [perform_gather] at gathered
  generalize (World.host.makeDirectories output).run world = made at adds opens gathered
  obtain ⟨opened, found⟩ := made
  cases opened with
  | false =>
    rw [if_neg Bool.false_ne_true] at gathered
    cases gathered
  | true =>
    rw [if_pos rfl] at gathered
    have files : prepared.files = found.files := by
      rw [← (gatherInputs_asks invocation output found).1, gathered]
    have exist : ∀ input ∈ invocation.inputs, (found.files.kind? input).isSome :=
      fun input listed => adds.grows.isSome_kind? (stands input listed)
    obtain ⟨value, -⟩ := gatherInputs_gives_of_none output plain exist found rfl
    rw [gathered] at value
    obtain ⟨preamble, read, rest⟩ := Option.bind_eq_some_iff.1 value.symm
    obtain ⟨namespaces, merged, rfl⟩ := Option.map_eq_some_iff.1 rest
    rw [files]
    exact ⟨opens rfl named, read, merged⟩

/-- Where the directory of the pages exists, the same is gathered again. -/
theorem gather_again {namespaces : Namespaces} (plain : invocation.preamble = none)
    (stands : ∀ input ∈ invocation.inputs, (world.files.kind? input).isSome)
    (opened : world.files.kind? output = some .directory)
    (read : world.files.preamble? (output.join preambleFile) = some preamble)
    (merged : world.files.merged? invocation.inputs = some namespaces) :
    ∃ log, World.perform (gather World.host invocation output) world =
      (.ok ⟨preamble, namespaces⟩, { world with log }) := by
  obtain ⟨value, log, rest⟩ := gatherInputs_gives_of_none output plain stands world rfl
  rw [read, merged] at value
  rw [perform_gather, makeDirectories_of_directory opened, if_pos rfl]
  refine ⟨log, Prod.ext ?_ rest⟩
  cases result : (World.perform (gatherInputs World.host invocation output) world).1 with
  | error failure =>
    rw [result] at value
    cases value
  | ok material =>
    rw [result] at value
    exact congrArg Except.ok (Option.some.inj value)

/-- A run with input files that is done, and the run of the same arguments on the files that it
leaves. -/
structure RunTwice (arguments : List Text) (output : Path) (world after again : World)
    (options : Options) (material : Material) (prepared : World) (preamble : Option Text) :
    Prop where
  /-- By then the directory of the pages exists. -/
  opened : prepared.files.kind? output = some .directory
  /-- The first run writes all pages. -/
  wrote : prepared.files.Wrote
    ((material.pages options).entries.map (pageWrite output material.preamble)) after.files
  /-- It has found the preamble that was there. -/
  found : prepared.files.preamble? (output.join preambleFile) = some material.preamble
  /-- The second run finds the preamble that is there then. -/
  finds : after.files.preamble? (output.join preambleFile) = some preamble
  /-- The second run is done. -/
  done : ((run World.host arguments).run again).1 = .done
  /-- It writes all pages. -/
  writes : after.files.Wrote ((material.pages options).entries.map (pageWrite output preamble))
    ((run World.host arguments).run again).2.files

/-- A run that is done can be run again. -/
theorem FileRequest.run_again {arguments : List Text} {after again : World}
    (request : FileRequest arguments invocation output) (plain : invocation.preamble = none)
    (slashless : world.files.Slashless)
    (stands : ∀ input ∈ invocation.inputs, (world.files.kind? input).isSome)
    (finished : (run World.host arguments).run world = (.done, after))
    (same : again.files = after.files) :
    ∃ options material prepared preamble,
      World.perform (gather World.host invocation output) world = (.ok material, prepared) ∧
      RunTwice arguments output world after again options material prepared preamble := by
  have named := request.output_ne_nil
  obtain ⟨options, material, prepared, first⟩ := request.run_done finished
  have gathered := first.gathered
  have adds := first.adds
  have wrote := first.written.wrote
  obtain ⟨opened, found, merged⟩ := gather_ok named plain stands gathered
  have keeps := adds.keepsSources.trans (wrote.keepsSources named)
  -- The second run starts from files on which everything that it asks for has an answer.
  have opened' : again.files.kind? output = some .directory := by
    rw [same, wrote.grows.kind?_eq opened]
  have stands' : ∀ input ∈ invocation.inputs, (again.files.kind? input).isSome := by
    rw [same]
    exact fun input listed => keeps.grows.isSome_kind? (stands input listed)
  have merged' : again.files.merged? invocation.inputs = some material.namespaces := by
    rw [same, keeps.merged?_eq slashless stands, ← merged,
      adds.keepsSources.merged?_eq slashless stands]
  obtain ⟨preamble, finds⟩ : ∃ preamble,
      after.files.preamble? (output.join preambleFile) = some preamble := by
    obtain ⟨place, there⟩ := FileSystem.exists_of_kind?_directory opened
    rw [wrote.preamble?_eq there, found]
    cases ((prepared.files.find (output.join preambleFile)).place?.bind
      (prepared.files.lastAt _)) with
    | none => exact ⟨_, rfl⟩
    | some text => exact ⟨_, rfl⟩
  obtain ⟨log, gathers⟩ := gather_again plain stands' opened' (same ▸ finds) merged'
  obtain ⟨done, writes⟩ := request.run_of_writable first.chosen gathers first.written.distinct
    fun page listed => by
      show ∃ place, again.files.target? (pageFile output page.1) = some place
      rw [same]
      exact ⟨_, wrote.target _ (List.mem_map_of_mem listed)⟩
  refine ⟨options, material, prepared, preamble, gathered, opened, wrote, found, finds, done, ?_⟩
  rw [← same]
  exact writes

namespace RunTwice

variable {arguments : List Text} {after again : World} {options : Options}
  (twice : RunTwice arguments output world after again options material prepared preamble)
include twice

/-- The directory of the pages is found before and after the pages are written. -/
theorem exists_directory : ∃ place,
    prepared.files.find output = .existing place .directory ∧
      after.files.find output = .existing place .directory := by
  obtain ⟨place, found⟩ := FileSystem.exists_of_kind?_directory twice.opened
  exact ⟨place, found, twice.wrote.grows.find_directory found⟩

/-- A preamble is sought in the same place before and after the pages are written. -/
theorem place?_preambleFile :
    (prepared.files.find (output.join preambleFile)).place? =
      (after.files.find (output.join preambleFile)).place? := by
  obtain ⟨place, found, still⟩ := twice.exists_directory
  rw [find_preambleFile found, find_preambleFile still]
  split
  · rfl
  · rw [FileSystem.Found.place?_at, FileSystem.Found.place?_at]

/-- The preamble of the second run is the page that has taken its place, or else the one of the
first run. -/
theorem preamble_eq :
    some preamble = (((after.files.find (output.join preambleFile)).place?.bind fun place =>
      ((material.pages options).entries.reverse.find? fun page =>
        after.files.placeOf (pageFile output page.1) = place).map fun page =>
          pageDocument material.preamble page.1 page.2).map some).or (some material.preamble) := by
  obtain ⟨place, found, -⟩ := twice.exists_directory
  rw [← twice.finds, twice.wrote.preamble?_eq found, twice.found, twice.place?_preambleFile]
  congr 3
  funext place
  simp only [lastAt_pages, twice.wrote.grows.placeOf_eq]

/-- If no page takes the place of the preamble, the second run changes nothing. -/
theorem at?_eq (free : ∀ space ∈ material.namespaces.keys, ¬ TakesPreamble after.files output space)
    (place : Place) :
    ((run World.host arguments).run again).2.files.at? place = after.files.at? place := by
  have same : preamble = material.preamble := by
    have found := twice.preamble_eq
    cases sought : (after.files.find (output.join preambleFile)).place? with
    | none =>
      rw [sought] at found
      exact Option.some.inj found
    | some place =>
      have untaken : (material.pages options).entries.reverse.find? (fun page =>
          after.files.placeOf (pageFile output page.1) = place) = none := by
        refine List.find?_eq_none.2 fun page listed here => free page.1 ?_ ?_
        · rw [← material.keys_pages options]
          exact List.mem_map_of_mem (List.mem_reverse.1 listed)
        · rw [TakesPreamble, sought, of_decide_eq_true here]
      rw [sought, Option.bind_some, untaken] at found
      exact Option.some.inj found
  have writes := twice.writes
  rw [same] at writes
  exact twice.wrote.at?_again writes place

/-- If a page takes the place of the preamble, the second run makes the file there longer. -/
theorem exists_longer (named : output ≠ []) {space : Text}
    (key : space ∈ material.namespaces.keys) (takes : TakesPreamble after.files output space) :
    ∃ place text longer, after.files.at? place = some (.file (.text text)) ∧
      ((run World.host arguments).run again).2.files.at? place = some (.file (.text longer)) ∧
      text.length < longer.length := by
  obtain ⟨_, -, still⟩ := twice.exists_directory
  rw [← material.keys_pages options] at key
  obtain ⟨entry, listed, rfl⟩ := List.mem_map.1 key
  -- The last page with this place is what both runs leave there.
  obtain ⟨page, last⟩ : ∃ page, (material.pages options).entries.reverse.find? (fun page =>
      after.files.placeOf (pageFile output page.1) =
        after.files.placeOf (pageFile output entry.1)) = some page :=
    Option.isSome_iff_exists.1 (List.find?_isSome.2
      ⟨entry, List.mem_reverse.2 listed, decide_eq_true rfl⟩)
  have here : after.files.placeOf (pageFile output page.1) =
      after.files.placeOf (pageFile output entry.1) := by simpa using List.find?_some last
  have own : TakesPreamble after.files output page.1 := takes.trans (congrArg some here.symm)
  obtain ⟨-, long⟩ := name_of_takesPreamble named still own
  have found := twice.preamble_eq
  rw [takes, Option.bind_some, last] at found
  have taken : preamble = some (pageDocument material.preamble page.1 page.2) :=
    Option.some.inj found
  have first := twice.wrote.stands (after.files.placeOf (pageFile output entry.1))
  have second := twice.writes.stands (after.files.placeOf (pageFile output entry.1))
  rw [lastAt_pages] at first second
  simp only [← twice.wrote.grows.placeOf_eq, last, taken, Option.map_some, Option.some_or]
    at first second
  exact ⟨_, _, _, first, second, length_lt_pageDocument long⟩

end RunTwice

/-- A run that is done can be run again on the files that it leaves. The second run is done as well,
and it changes no file exactly if no page stands where a preamble is sought. Only the page of a
namespace whose last piece is the name of that file without its extension can stand there. -/
theorem run_again_same_iff {arguments : List Text} {after again : World}
    (request : FileRequest arguments invocation output) (plain : invocation.preamble = none)
    (slashless : world.files.Slashless)
    (stands : ∀ input ∈ invocation.inputs, (world.files.kind? input).isSome)
    (finished : (run World.host arguments).run world = (.done, after))
    (same : again.files = after.files) :
    let ended := (run World.host arguments).run again
    ended.1 = .done ∧ ∃ material prepared,
      World.perform (gather World.host invocation output) world = (.ok material, prepared) ∧
      ((∀ place, ended.2.files.at? place = after.files.at? place) ↔
        ∀ space ∈ material.namespaces.keys, ¬ TakesPreamble after.files output space) ∧
      ((∀ space ∈ material.namespaces.keys, space.afterLast '/' ≠ "_prefix".toList) →
        ∀ place, ended.2.files.at? place = after.files.at? place) := by
  intro ended
  obtain ⟨options, material, prepared, preamble, gathered, twice⟩ :=
    request.run_again plain slashless stands finished same
  have named := request.output_ne_nil
  refine ⟨twice.done, material, prepared, gathered, ⟨fun kept space key takes => ?_, twice.at?_eq⟩,
    fun other => twice.at?_eq fun space key takes => ?_⟩
  · obtain ⟨place, text, longer, first, second, grown⟩ := twice.exists_longer named key takes
    have equal : longer = text := by simpa using second.symm.trans ((kept place).trans first)
    rw [equal] at grown
    exact Nat.lt_irrefl _ grown
  · obtain ⟨_, -, still⟩ := twice.exists_directory
    obtain ⟨last, -⟩ := name_of_takesPreamble named still takes
    rw [Markdown.pageName] at last
    split at last
    · exact absurd last (by decide)
    · exact other space key last

set_option maxRecDepth 100000 in
/-- A directory that holds the input, a preamble and the pages is left as it is by a second run. -/
theorem run_again_same_iff_of_directory :
    let world := World.ofFiles [("a.xml",
      "<doc><members><member name=\"T:Shapes.Circle\"/></members></doc>"),
      ("_prefix.md", "# $\x7bname\x7d")] ""
    let output := ".".toList
    let invocation : Invocation := { inputs := [".".toList], output := some output }
    let arguments := ["-o".toList, output, ".".toList]
    let after := ((run World.host arguments).run world).2
    let ended := (run World.host arguments).run after
    FileRequest arguments invocation output ∧ invocation.preamble = none ∧
    world.files.Slashless ∧
    (∀ input ∈ invocation.inputs, (world.files.kind? input).isSome) ∧
    (run World.host arguments).run world = (.done, after) ∧
    after.files.at? ["w".toList, "Shapes.md".toList] = some (.file (.text
      "# Shapes\n---\n#### Type: <a name=\"shapes.circle\"></a>Circle\n\n\n\n".toList)) ∧
    ended.1 = .done ∧ ∀ place, ended.2.files.at? place = after.files.at? place := by
  intro world output invocation arguments after ended
  have request : FileRequest arguments invocation output := ⟨by decide +kernel, by decide, rfl⟩
  have slashless : world.files.Slashless := FileSystem.slashless_of_entries (by decide +kernel)
  have stands : ∀ input ∈ invocation.inputs, (world.files.kind? input).isSome := by decide +kernel
  have ending : ((run World.host arguments).run world).1 = .done := by decide +kernel
  have finished : (run World.host arguments).run world = (.done, after) := Prod.ext ending rfl
  have spaces : (World.perform (gather World.host invocation output) world).1.toOption.map
      (·.namespaces.keys) = some ["Shapes".toList] := by decide +kernel
  obtain ⟨done, material, prepared, gathered, -, unchanged⟩ :=
    run_again_same_iff request rfl slashless stands finished rfl
  rw [gathered] at spaces
  have keys : material.namespaces.keys = ["Shapes".toList] := Option.some.inj spaces
  refine ⟨request, rfl, slashless, stands, finished, by decide +kernel, done, unchanged ?_⟩
  rw [keys]
  decide

set_option maxRecDepth 100000 in
/-- The page of a namespace with the name of the preamble is the preamble of the second run, which
writes it before itself. -/
theorem run_again_changes_page_of_preamble :
    let world := World.ofFiles [("a.xml",
      "<doc><members><member name=\"T:_prefix.X\"/></members></doc>")] ""
    let output := "out".toList
    let invocation : Invocation := { inputs := ["a.xml".toList], output := some output }
    let arguments := ["-o".toList, output, "a.xml".toList]
    let after := (run World.host arguments).run world
    let ended := (run World.host arguments).run after.2
    let page : Text := "---\n#### Type: <a name=\"_prefix.x\"></a>X\n\n\n\n".toList
    let place : Place := ["w".toList, "out".toList, "_prefix.md".toList]
    FileRequest arguments invocation output ∧ invocation.preamble = none ∧
    (∀ input ∈ invocation.inputs, world.files.kind? input = some .file ∧ isSupported input) ∧
    after.1 = .done ∧ after.2.files.at? place = some (.file (.text page)) ∧
    ended.1 = .done ∧
    ended.2.files.at? place = some (.file (.text (page ++ '\n' :: page))) ∧
    ended.2.files.at? place ≠ after.2.files.at? place := by
  intro world output invocation arguments after ended page place
  have seen : (after.1, after.2.files.at? place, ended.1, ended.2.files.at? place) =
      (.done, some (.file (.text page)), .done,
        some (.file (.text (page ++ '\n' :: page)))) := by decide +kernel
  obtain ⟨done, seen⟩ := Prod.mk.inj seen
  obtain ⟨first, seen⟩ := Prod.mk.inj seen
  obtain ⟨again, second⟩ := Prod.mk.inj seen
  refine ⟨⟨by decide +kernel, by decide, rfl⟩, rfl, by decide +kernel, done, first, again, second,
    ?_⟩
  rw [first, second]
  decide

end ApiPages
