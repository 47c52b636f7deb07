import ApiPages.Proofs.Gathering

/-!
# Files of pages

Pages are written one after the other until one of them cannot be: because an earlier page has its
name, or because the file system refuses its path. So the files after a run are those before it with
a row of pages written, which are all pages when the run is done.
-/
namespace ApiPages

variable {output : Path} {preamble : Option Text}

/-- The path of the file of a namespace. -/
def pageFile (output : Path) (space : Text) : Path := pagePath output (Markdown.pageName space)

/-- What the file of a namespace is to hold. -/
def pageDocument (preamble : Option Text) (space page : Text) : Text :=
  filled preamble (Markdown.pageName space) page

/-- What is written for the page of a namespace, with the path of its file. -/
def pageWrite (output : Path) (preamble : Option Text) (page : Text × Text) : Path × Text :=
  (pageFile output page.1, pageDocument preamble page.1 page.2)

/-- The world with a text in the file at a place. -/
def World.store (world : World) (place : Place) (text : Text) : World :=
  { world with files := world.files.put place (.file (.text text)) }

/-- The world after a file has been written, or refused. -/
theorem perform_write (path : Path) (text : Text) (world : World) :
    World.perform (liftM (World.host.write path text)) world =
      match world.files.target? path with
      | some place => (.ok true, world.store place text)
      | none => (.ok false, world) := by
  change (Except.ok (world.files.write path text).1,
    { world with files := (world.files.write path text).2 }) = _
  rw [FileSystem.write_eq]
  cases world.files.target? path <;> rfl

/-- The first page is refused for its name or by the file system, or it is written. -/
theorem perform_writePages_cons (written : List (Text × Text)) (page : Text × Text)
    (rest : List (Text × Text)) (world : World) :
    World.perform (writePages World.host output preamble written (page :: rest)) world =
      match written.find? (·.1 = Markdown.pageName page.1),
        world.files.target? (pageWrite output preamble page).1 with
      | some (_, previous), _ =>
        (.error (.clash previous page.1 (Markdown.pageName page.1)), world)
      | none, none => (.error (.unwritable (pageWrite output preamble page).1), world)
      | none, some place =>
        World.perform (writePages World.host output preamble
            ((Markdown.pageName page.1, page.1) :: written) rest)
          (world.store place (pageWrite output preamble page).2) := by
  rw [writePages]
  cases written.find? (·.1 = Markdown.pageName page.1) with
  | some earlier => rfl
  | none =>
    change World.perform (liftM (World.host.write (pageWrite output preamble page).1
      (pageWrite output preamble page).2) >>= _) world = _
    rw [World.perform_bind, perform_write]
    cases world.files.target? (pageWrite output preamble page).1 <;> rfl

/-- Why no more pages are written when there are already pages of some names and namespaces. -/
inductive Halts (output : Path) (earlier : List (Text × Text)) (files : FileSystem) :
    (left : List (Text × Text)) → Except Failure Unit → Prop where
  /-- None is left. -/
  | done : Halts output earlier files [] (.ok ())
  /-- The next page has the name of an earlier one. -/
  | clash {page : Text × Text} {rest : List (Text × Text)} {previous : Text}
      (taken : (Markdown.pageName page.1, previous) ∈ earlier) :
      Halts output earlier files (page :: rest)
        (.error (.clash previous page.1 (Markdown.pageName page.1)))
  /-- The file system refuses the path of the next page. -/
  | unwritable {page : Text × Text} {rest : List (Text × Text)}
      (refused : files.target? (pageFile output page.1) = none) :
      Halts output earlier files (page :: rest)
        (.error (.unwritable (pageFile output page.1)))

/-- What halts the writing of pages halts it also when there are more earlier ones. -/
theorem Halts.mono {earlier more : List (Text × Text)} {files : FileSystem}
    {left : List (Text × Text)} {result : Except Failure Unit}
    (halts : Halts output earlier files left result) (subset : earlier ⊆ more) :
    Halts output more files left result := by
  cases halts with
  | done => exact .done
  | clash taken => exact .clash (subset taken)
  | unwritable refused => exact .unwritable refused

/-- The name of a page with its namespace. -/
def pageKey (page : Text × Text) : Text × Text := (Markdown.pageName page.1, page.1)

/-- What has become of pages that were to be written after pages of some names and namespaces: some
were written, and the result is the reason why the others were not. -/
structure PagesWritten (output : Path) (preamble : Option Text) (earlier : List (Text × Text))
    (pages : List (Text × Text)) (before : FileSystem) (result : Except Failure Unit)
    (after : FileSystem) (done left : List (Text × Text)) : Prop where
  /-- Pages are written from the first one on. -/
  all : pages = done ++ left
  /-- They are written to their files. -/
  wrote : before.Wrote (done.map (pageWrite output preamble)) after
  /-- Their names are distinct. -/
  distinct : (done.map fun page => Markdown.pageName page.1).Nodup
  /-- No page before has one of their names. -/
  fresh : ∀ page ∈ done, Markdown.pageName page.1 ∉ earlier.map (·.1)
  /-- There was a reason to stop. -/
  halts : Halts output (done.map pageKey ++ earlier) after left result

/-- When no page was refused, all have been written. -/
theorem PagesWritten.eq_of_ok {earlier pages done left : List (Text × Text)}
    {before after : FileSystem}
    (written : PagesWritten output preamble earlier pages before (.ok ()) after done left) :
    done = pages := by
  obtain ⟨rfl, -, -, -, halts⟩ := written
  cases halts
  rw [List.append_nil]

/-- Pages with distinct names and writable files are all written. -/
theorem PagesWritten.ok_of_writable {pages done left : List (Text × Text)}
    {result : Except Failure Unit} {before after : FileSystem}
    (written : PagesWritten output preamble [] pages before result after done left)
    (distinct : (pages.map fun page => Markdown.pageName page.1).Nodup)
    (writable : ∀ page ∈ pages, ∃ place, before.target? (pageFile output page.1) = some place) :
    result = .ok () := by
  obtain ⟨rfl, wrote, -, -, halts⟩ := written
  cases halts with
  | done => rfl
  | clash taken =>
    rw [List.append_nil] at taken
    obtain ⟨page, listed, same⟩ := List.mem_map.1 taken
    rw [List.map_append] at distinct
    exact absurd (congrArg Prod.fst same)
      ((List.nodup_append.1 distinct).2.2 _ (List.mem_map_of_mem listed) _ List.mem_cons_self)
  | unwritable refused =>
    obtain ⟨place, target⟩ := writable _ (List.mem_append_right _ List.mem_cons_self)
    rw [wrote.target?_eq target] at refused
    cases refused

/-- Pages are written until one of them cannot be. -/
theorem writePages_written (output : Path) (preamble : Option Text) (written : List (Text × Text))
    (pages : List (Text × Text)) (world : World) :
    let performed := World.perform (writePages World.host output preamble written pages) world
    ∃ done left, PagesWritten output preamble written pages world.files performed.1
      performed.2.files done left := by
  induction pages generalizing written world with
  | nil => exact ⟨[], [], rfl, .nil _, .nil, nofun, .done⟩
  | cons page rest ih =>
    rw [perform_writePages_cons]
    cases taken : written.find? (·.1 = Markdown.pageName page.1) with
    | some first =>
      refine ⟨[], page :: rest, rfl, .nil _, .nil, nofun, .clash ?_⟩
      have same : first.1 = Markdown.pageName page.1 := by simpa using List.find?_some taken
      rw [← same]
      exact List.mem_of_find?_eq_some taken
    | none =>
      cases target : world.files.target? (pageWrite output preamble page).1 with
      | none => exact ⟨[], page :: rest, rfl, .nil _, .nil, nofun, .unwritable target⟩
      | some place =>
        obtain ⟨done, left, further⟩ := ih ((Markdown.pageName page.1, page.1) :: written)
          (world.store place (pageWrite output preamble page).2)
        have free : Markdown.pageName page.1 ∉ written.map (·.1) := by
          intro listed
          obtain ⟨first, among, same⟩ := List.mem_map.1 listed
          exact List.find?_eq_none.1 taken first among (decide_eq_true same)
        have others : Markdown.pageName page.1 ∉ done.map fun page => Markdown.pageName page.1 := by
          intro listed
          obtain ⟨later, among, same⟩ := List.mem_map.1 listed
          exact further.fresh later among (same ▸ List.mem_cons_self)
        refine ⟨page :: done, left, congrArg _ further.all, .cons target further.wrote,
          List.nodup_cons.2 ⟨others, further.distinct⟩, ?_, further.halts.mono ?_⟩
        · refine List.forall_mem_cons.2 ⟨free, fun later among => ?_⟩
          exact fun listed => further.fresh later among (List.mem_cons_of_mem _ listed)
        · exact List.perm_middle.subset

/-- A world with some files in its working directory and a standard input. -/
def World.ofFiles (files : List (String × String)) (input : String) : World where
  files :=
    { entries := (["w".toList], .directory) ::
        files.map fun file => (["w".toList, file.1.toList], .file (.text file.2.toList))
      working := ["w".toList] }
  input := .text input.toList

/-- A run with input files that gathers what its pages are made of and then writes some of them. -/
structure WritingRun (invocation : Invocation) (output : Path) (world : World)
    (ended : Ending × World) (options : Options) (material : Material) (prepared : World)
    (result : Except Failure Unit) (done left : List (Text × Text)) : Prop where
  /-- The options are known. -/
  chosen : invocation.options = .ok options
  /-- The run gathers what it needs. -/
  gathered : World.perform (gather World.host invocation output) world = (.ok material, prepared)
  /-- By then no file has changed. -/
  adds : world.files.AddsDirectories prepared.files
  /-- By then the directory of the pages stands at its place. -/
  opened : prepared.files.at? (world.files.placeOf output) = some .directory
  /-- The run ends as the writing of the pages does. -/
  ending : ended.1 = .of result
  /-- Pages are written. -/
  written : PagesWritten output material.preamble [] (material.pages options).entries
    prepared.files result ended.2.files done left

/-- A run with input files fails before it changes any file, or it gathers what it needs and writes
pages until one of them cannot be written. -/
theorem FileRequest.run_written {arguments : List Text} {invocation : Invocation} {output : Path}
    (request : FileRequest arguments invocation output) (world : World) :
    let ended := (run World.host arguments).run world
    (ended.1 ≠ .done ∧ world.files.AddsDirectories ended.2.files) ∨
      ∃ options material prepared result done left,
        WritingRun invocation output world ended options material prepared result done left := by
  obtain ⟨adds, opened⟩ := gather_adds invocation request.output_ne_nil world
  rw [request.run_eq]
  cases chosen : invocation.options with
  | error unknown => exact .inl ⟨nofun, .refl _⟩
  | ok options =>
    cases gathered : World.perform (gather World.host invocation output) world with
    | mk result prepared =>
      rw [gathered] at adds opened
      cases result with
      | error failure => exact .inl ⟨nofun, adds⟩
      | ok material =>
        obtain ⟨done, left, written⟩ := writePages_written output material.preamble []
          (material.pages options).entries prepared
        exact .inr ⟨options, material, prepared, _, done, left, chosen, gathered, adds,
          opened material rfl, rfl, written⟩

/-- A run with input files that is done has written all pages. -/
theorem FileRequest.run_done {arguments : List Text} {invocation : Invocation} {output : Path}
    (request : FileRequest arguments invocation output) {world after : World}
    (finished : (run World.host arguments).run world = (.done, after)) :
    ∃ options material prepared, WritingRun invocation output world (.done, after) options material
      prepared (.ok ()) (material.pages options).entries [] := by
  have written := request.run_written world
  rw [finished] at written
  rcases written with ⟨failed, -⟩ | ⟨options, material, prepared, result, done, left, writing⟩
  · exact absurd rfl failed
  obtain rfl : result = .ok () := Ending.of_eq_done_iff.1 writing.ending.symm
  obtain rfl := writing.written.eq_of_ok
  obtain rfl : left = [] := by simpa using writing.written.all
  exact ⟨options, material, prepared, writing⟩

/-- A run with input files that can write all pages is done, and has written them. -/
theorem FileRequest.run_of_writable {arguments : List Text} {invocation : Invocation}
    {output : Path} (request : FileRequest arguments invocation output) {options : Options}
    {world prepared : World} {material : Material} (chosen : invocation.options = .ok options)
    (gathered : World.perform (gather World.host invocation output) world =
      (.ok material, prepared))
    (distinct : ((material.pages options).entries.map fun page =>
      Markdown.pageName page.1).Nodup)
    (writable : ∀ page ∈ (material.pages options).entries,
      ∃ place, prepared.files.target? (pageFile output page.1) = some place) :
    let ended := (run World.host arguments).run world
    ended.1 = .done ∧ prepared.files.Wrote
      ((material.pages options).entries.map (pageWrite output material.preamble))
      ended.2.files := by
  obtain ⟨done, left, written⟩ := writePages_written output material.preamble []
    (material.pages options).entries prepared
  have ok := written.ok_of_writable distinct writable
  rw [ok] at written
  obtain rfl := written.eq_of_ok
  rw [request.run_eq, chosen, gathered]
  exact ⟨Ending.of_eq_done_iff.2 ok, written.wrote⟩

end ApiPages
