import ApiPages.Proofs.Confinement
import ApiPages.Proofs.KeptPages

/-!
# What a failing run leaves behind

A run with input files first makes the directory of its pages and gathers what they are made of. If
that fails, directories on the way to the pages are all that is new. After that pages are written in
the order of their namespaces, and a failure comes between two of them: those before it are written
as they would be by a run that is done, and nothing else has changed. Without slashes in namespaces
only two of them can have pages of the same name, and the one without a name comes first.
-/
namespace ApiPages

/-! ### Directories on the way -/

/-- A place that was empty holds a directory to which one of some paths leads. -/
def NewDirectory (before after : FileSystem) (paths : List Path) (place : Place) : Prop :=
  before.at? place = none ∧ after.at? place = some .directory ∧
    ∃ path ∈ paths, before.placeOf path = place

namespace FileSystem

variable {before after : FileSystem} {paths : List Path}

/-- A file system to which directories of some paths are added, and nothing else. -/
structure OpensAlong (before : FileSystem) (paths : List Path) (after : FileSystem) : Prop where
  /-- Nothing vanishes. -/
  grows : before.Grows after
  /-- Only directories of these paths are new. -/
  opened : ∀ place, after.at? place ≠ before.at? place → NewDirectory before after paths place

namespace OpensAlong

/-- A file system comes from itself by adding none. -/
theorem refl (system : FileSystem) (paths : List Path) : system.OpensAlong paths system :=
  ⟨.refl system, fun _ differs => absurd rfl differs⟩

/-- Directories of the same paths that are added in two stages are added in one. -/
theorem trans {middle : FileSystem} (first : before.OpensAlong paths middle)
    (second : middle.OpensAlong paths after) : before.OpensAlong paths after := by
  refine ⟨first.grows.trans second.grows, fun place differs => ?_⟩
  by_cases same : middle.at? place = before.at? place
  · rw [← same] at differs
    obtain ⟨empty, opened, path, listed, here⟩ := second.opened place differs
    rw [first.grows.placeOf_eq] at here
    exact ⟨same ▸ empty, opened, path, listed, here⟩
  · obtain ⟨empty, opened, leads⟩ := first.opened place same
    exact ⟨empty, second.grows.directory opened, leads⟩

/-- No file changes when directories are added. -/
theorem not_fileChanged (opens : before.OpensAlong paths after) (place : Place) :
    ¬ FileChanged before after place := by
  rintro ⟨contents, stands, other⟩
  have differs : after.at? place ≠ before.at? place := fun same => other (same ▸ stands)
  obtain ⟨-, opened, -⟩ := opens.opened place differs
  rw [stands] at opened
  cases opened

end OpensAlong

/-- Making a directory adds nothing but this one. -/
theorem makeDirectory_opensAlong (system : FileSystem) {path : Path} (listed : path ∈ paths) :
    system.OpensAlong paths (system.makeDirectory path).2 := by
  refine ⟨(system.makeDirectory_adds path).1.grows, ?_⟩
  rw [makeDirectory]
  cases found : system.find path with
  | existing | missing | blocked => exact fun _ differs => absurd rfl differs
  | vacant own =>
    obtain ⟨leads, empty⟩ := leads_of_vacant found
    have free : system.at? own ≠ some .directory := by simp [empty]
    have inside : own ≠ [] := ne_nil_of_at?_ne free
    intro place differs
    have put := at?_put system inside .directory place
    by_cases here : place = own
    · subst here
      rw [if_pos rfl] at put
      exact ⟨empty, put, path, listed, (eq_placeOf_of_find leads).symm⟩
    · rw [if_neg here] at put
      exact absurd put differs

/-- What a path holds stands at its place. -/
theorem at?_of_contents? {system : FileSystem} {path : Path} {contents : Contents}
    (stored : system.contents? path = some contents) :
    system.at? (system.placeOf path) = some (.file contents) := by
  obtain ⟨place, found⟩ := exists_of_contents? stored
  obtain ⟨leads, stands⟩ := leads_of_existing found
  rw [contents?, found] at stored
  rw [← eq_placeOf_of_find leads, stands, Option.some.inj stored]

end FileSystem

/-- Actions that add directories of some paths and nothing else. -/
def opening (paths : List Path) : Passing (StateM World) where
  Holds action := ∀ world, world.files.OpensAlong paths (action.run world).2.files
  pure _ := fun world : World => FileSystem.OpensAlong.refl world.files paths
  bind first second world := (first world).trans (second _ _)

/-- Asking for a directory adds none. -/
theorem isDirectory_opening (paths : List Path) (path : Path) :
    (opening paths).Holds (World.host.isDirectory path) :=
  fun world : World => FileSystem.OpensAlong.refl world.files paths

/-- Making a directory adds that one only. -/
theorem makeDirectory_opening {paths : List Path} {path : Path} (listed : path ∈ paths) :
    (opening paths).Holds (World.host.makeDirectory path) :=
  fun world : World => world.files.makeDirectory_opensAlong listed

/-- Making the first of some directories makes no other ones. -/
theorem makeInside_opening {paths inner : List Path} (listed : inner ⊆ paths) :
    (opening paths).Holds (World.host.makeInside inner) := by
  induction inner with
  | nil => exact (opening paths).pure false
  | cons path outer ih =>
    obtain ⟨own, others⟩ := List.cons_subset.1 listed
    cases path with
    | nil => exact (opening paths).pure true
    | cons head rest =>
      rw [Host.makeInside]
      · refine (opening paths).bind (makeDirectory_opening own) fun making => ?_
        cases making with
        | made => exact (opening paths).pure true
        | refused => exact isDirectory_opening paths _
        | noParent =>
          refine (opening paths).bind (ih others) fun opened => ?_
          refine (opening paths).ite ?_ ((opening paths).pure false)
          refine (opening paths).bind (makeDirectory_opening own) fun again => ?_
          cases again with
          | made => exact (opening paths).pure true
          | refused | noParent => exact isDirectory_opening paths _
      · exact List.cons_ne_nil head rest

/-- Gathering adds directories on the way to the pages and nothing else, and it never fails for a
page. -/
theorem gather_opensAlong (invocation : Invocation) (output : Path) (world : World) :
    let performed := World.perform (gather World.host invocation output) world
    world.files.OpensAlong output.ancestors performed.2.files ∧
      ∀ failure, performed.1 = .error failure → failure.stopsWriting = false := by
  intro performed
  have opens : world.files.OpensAlong output.ancestors
      ((World.host.makeDirectories output).run world).2.files :=
    makeInside_opening (List.Subset.refl _) world
  have eq : performed = _ := perform_gather invocation output world
  rw [eq]
  split
  · have asks := gatherInputs_asks invocation output
      ((World.host.makeDirectories output).run world).2
    rw [asks.1]
    exact ⟨opens, asks.2⟩
  · refine ⟨opens, fun failure failed => ?_⟩
    rw [← Except.error.inj failed]
    rfl

/-! ### Pages of the same name -/

/-- The page without a name comes before the only other one that can have its name. -/
theorem eq_of_pageName_eq {first second : Text} (below : first < second)
    (same : Markdown.pageName first = Markdown.pageName second) :
    first = [] ∧ second = "_global".toList := by
  have named : second ≠ [] := by
    rintro rfl
    exact List.not_lt_nil _ below
  rw [Markdown.pageName, Markdown.pageName, if_neg named] at same
  by_cases empty : first = []
  · rw [if_pos empty] at same
    exact ⟨empty, same.symm⟩
  · rw [if_neg empty] at same
    exact absurd (same ▸ below) (List.lt_irrefl _)

/-- How a run ends that has written some pages and not those that are left. -/
def EndsBetween (output : Path) (done left : List (Text × Text)) (after : FileSystem)
    (ending : Ending) : Prop :=
  match left with
  | [] => ending = .done
  | page :: _ =>
    (page.1 = "_global".toList ∧ [] ∈ done.map (·.1) ∧
      ending = .failed (.clash [] "_global".toList "_global".toList)) ∨
    (after.target? (pageFile output page.1) = none ∧
      ending = .failed (.unwritable (pageFile output page.1)))

/-- What a run leaves behind that has written some of its pages. -/
structure LeavesPages (output : Path) (preamble : Option Text) (pages : Dict Text)
    (before after : FileSystem) (ending : Ending) (done left : List (Text × Text)) : Prop where
  /-- The pages that are written are the first ones. -/
  all : pages.entries = done ++ left
  /-- The run ends because none is left or because the next one cannot be written. -/
  ends : EndsBetween output done left after ending
  /-- A clash of names ends it exactly when both namespaces of that name occur and everything before
  the second one is written. -/
  clash : (∃ first second name, ending = .failed (.clash first second name)) ↔
    [] ∈ pages.keys ∧ "_global".toList ∈ pages.keys ∧
      ∀ space ∈ pages.keys, space < "_global".toList → space ∈ done.map (·.1)
  /-- Every page that is written is found in its file. -/
  holds : ∀ page ∈ done,
    after.contents? (pageFile output page.1) =
        some (.text (pageDocument preamble page.1 page.2)) ∧
      after.at? (before.placeOf (pageFile output page.1)) =
        some (.file (.text (pageDocument preamble page.1 page.2)))
  /-- The namespace without a name keeps its page when another one would take its file. -/
  keeps : (∃ first second name, ending = .failed (.clash first second name)) →
    ∃ page, pages.get? [] = some page ∧ after.contents? (pagePath output "_global".toList) =
      some (.text (pageDocument preamble [] page))
  /-- Everything else is as it was, but for directories on the way to the pages. -/
  others : ∀ place, (∀ page ∈ done, before.placeOf (pageFile output page.1) ≠ place) →
    after.at? place ≠ before.at? place → NewDirectory before after output.ancestors place

section

variable {output : Path} {preamble : Option Text} {pages : Dict Text} {result : Except Failure Unit}
  {before after : FileSystem} {done left : List (Text × Text)}
  (written : PagesWritten output preamble [] pages.entries before result after done left)

include written

/-- The namespaces of the pages that are written come before those of the others. -/
theorem PagesWritten.below {first second : Text × Text} (early : first ∈ done)
    (late : second ∈ left) : first.1 < second.1 := by
  have sorted := pages.sorted
  rw [written.all] at sorted
  exact (List.pairwise_append.1 sorted).2.2 first early second late

/-- The page that is next comes before those after it. -/
theorem PagesWritten.next_below {page later : Text × Text} {rest : List (Text × Text)}
    (next : left = page :: rest) (listed : later ∈ rest) : page.1 < later.1 := by
  have sorted := pages.sorted
  rw [written.all, next] at sorted
  exact (List.pairwise_cons.1 (List.pairwise_append.1 sorted).2.1).1 later listed

/-- Writing is done if no page is left, and otherwise stops because of the next one. -/
theorem PagesWritten.endsBetween : EndsBetween output done left after (.of result) := by
  have below : ∀ earlier ∈ done, ∀ later ∈ left, earlier.1 < later.1 :=
    fun _ early _ late => written.below early late
  have halts := written.halts
  cases halts with
  | done => rfl
  | unwritable refused => exact .inr ⟨refused, rfl⟩
  | clash taken =>
    rw [List.append_nil] at taken
    obtain ⟨earlier, listed, key⟩ := List.mem_map.1 taken
    obtain ⟨name, rfl⟩ := Prod.mk.inj key
    obtain ⟨first, second⟩ := eq_of_pageName_eq (below _ listed _ List.mem_cons_self) name
    refine .inl ⟨second, first ▸ List.mem_map_of_mem listed, ?_⟩
    rw [first, second]
    rfl

/-- A namespace is written or left. -/
theorem PagesWritten.mem_keys {space : Text} (key : space ∈ pages.keys) :
    space ∈ done.map (·.1) ∨ space ∈ left.map (·.1) := by
  rw [Dict.keys, written.all, List.map_append] at key
  exact List.mem_append.1 key

/-- Writing ends in a clash exactly if the namespace without a name and the one named like its page
both have pages and all pages before the latter are written. -/
theorem PagesWritten.clash_iff :
    (∃ first second name, Ending.of result = .failed (.clash first second name)) ↔
      [] ∈ pages.keys ∧ "_global".toList ∈ pages.keys ∧
        ∀ space ∈ pages.keys, space < "_global".toList → space ∈ done.map (·.1) := by
  have entries := written.all
  have ends := written.endsBetween
  constructor
  · rintro ⟨first, second, name, clashed⟩
    cases left with
    | nil =>
      rw [show Ending.of result = .done from ends] at clashed
      cases clashed
    | cons page rest =>
      rcases ends with ⟨last, empty, -⟩ | ⟨-, refused⟩
      · have keys : pages.keys = done.map (·.1) ++ "_global".toList :: rest.map (·.1) := by
          rw [Dict.keys, entries, List.map_append, List.map_cons, last]
        refine ⟨by rw [keys]; exact List.mem_append_left _ empty, by simp [keys], ?_⟩
        intro space key lower
        refine (written.mem_keys key).resolve_right fun late => ?_
        -- What is left does not come before the page that stopped the run.
        rw [List.map_cons, last] at late
        rcases List.mem_cons.1 late with rfl | later
        · exact List.lt_irrefl _ lower
        · obtain ⟨other, among, rfl⟩ := List.mem_map.1 later
          exact List.lt_asymm lower (last ▸ written.next_below rfl among)
      · rw [refused] at clashed
        cases clashed
  · rintro ⟨empty, last, earlier⟩
    have first : [] ∈ done.map (·.1) := earlier [] empty (List.nil_lt_cons _ _)
    obtain ⟨⟨_, one⟩, early, rfl⟩ := List.mem_map.1 first
    have path : pageFile output [] = pageFile output "_global".toList := rfl
    have unwritten : "_global".toList ∉ done.map (·.1) := by
      intro again
      obtain ⟨⟨_, two⟩, late, rfl⟩ := List.mem_map.1 again
      have same := List.inj_on_of_nodup_map written.distinct early late rfl
      cases same
    cases left with
    | nil =>
      exact absurd ((written.mem_keys last).resolve_right List.not_mem_nil) unwritten
    | cons page rest =>
      have head : page.1 = "_global".toList := by
        by_contra other
        have late := (written.mem_keys last).resolve_left unwritten
        rw [List.map_cons] at late
        obtain ⟨later, among, name⟩ := List.mem_map.1 ((List.mem_cons.1 late).resolve_left
          (Ne.symm other))
        have above := written.next_below rfl among
        have key : page.1 ∈ pages.keys := by
          rw [Dict.keys, entries]
          simp
        obtain ⟨own, listed, same⟩ := List.mem_map.1 (earlier page.1 key (name ▸ above))
        exact List.lt_irrefl _ (same ▸ written.below listed List.mem_cons_self)
      rcases ends with ⟨-, -, clashed⟩ | ⟨refused, -⟩
      · exact ⟨_, _, _, clashed⟩
      · -- The file was written for the namespace without a name, so it is not refused.
        have target := written.wrote.target _ (List.mem_map_of_mem early)
        rw [head, ← path] at refused
        rw [show (pageWrite output preamble ([], one)).1 = pageFile output [] from rfl,
          refused] at target
        cases target

/-- Pages without slashes in their names are found in their files. -/
theorem PagesWritten.contents?_eq (named : output ≠ [])
    (slashless : ∀ space ∈ pages.keys, '/' ∉ space) :
    ∀ page ∈ done, after.contents? (pageFile output page.1) =
      some (.text (pageDocument preamble page.1 page.2)) := by
  have part : ∀ page ∈ done, '/' ∉ page.1 := fun page listed =>
    slashless page.1 (List.mem_map_of_mem (written.all ▸ List.mem_append_left left listed))
  have agree : ∀ first ∈ done, ∀ second ∈ done,
      before.placeOf (pageFile output first.1) = before.placeOf (pageFile output second.1) →
        first = second := by
    intro first early second late same
    have names := pageName_eq_of_placeOf before named (part first early) (part second late) same
    exact List.inj_on_of_nodup_map written.distinct early late names
  have stored := written.wrote.contents?_iff.2
  simp only [List.forall_mem_map] at stored
  refine stored fun first early second late same => ?_
  rw [agree first early second late same]

end

/-! ### Runs -/

/-- The directories on the way to the pages, with the one that holds them. -/
def Invocation.way (invocation : Invocation) : List Path :=
  (invocation.output.map Path.ancestors).getD []

/-- A run that has not begun to write pages: it has failed, and added directories at most. -/
def FailsEarly (invocation : Invocation) (world : World) (ended : Ending × World) : Prop :=
  ∃ failure, ended.1 = .failed failure ∧ failure.stopsWriting = false ∧
    world.files.OpensAlong invocation.way ended.2.files

variable {arguments : List Text} {invocation : Invocation} {output : Path}

/-- A run with input files and without a directory for the pages fails early. -/
theorem failsEarly_of_none (read : Invocation.read arguments = .ok invocation)
    (inputs : invocation.inputs ≠ []) (missing : invocation.output = none) (world : World) :
    FailsEarly invocation world ((run World.host arguments).run world) := by
  rw [run_read read, runInvocation_eq]
  cases invocation.options with
  | error unknown => exact ⟨_, rfl, rfl, .refl _ _⟩
  | ok options =>
    simp only [List.isEmpty_iff, if_neg inputs, runFiles, missing]
    exact ⟨_, rfl, rfl, .refl _ _⟩

/-- A run with input files fails early, or it gathers what its pages are made of and writes them. -/
theorem FileRequest.failsEarly_or_writes (request : FileRequest arguments invocation output)
    (world : World) :
    let ended := (run World.host arguments).run world
    FailsEarly invocation world ended ∨
      ∃ options material prepared result done left,
        invocation.options = .ok options ∧
        World.perform (gather World.host invocation output) world = (.ok material, prepared) ∧
        world.files.OpensAlong output.ancestors prepared.files ∧ ended.1 = .of result ∧
        PagesWritten output material.preamble [] (material.pages options).entries prepared.files
          result ended.2.files done left := by
  intro ended
  have way : invocation.way = output.ancestors := by
    rw [Invocation.way, request.output]
    rfl
  obtain ⟨opens, early⟩ := gather_opensAlong invocation output world
  have eq : ended = _ := request.run_eq world
  rw [eq, FailsEarly, way]
  cases invocation.options with
  | error unknown => exact .inl ⟨_, rfl, rfl, .refl _ _⟩
  | ok options =>
    cases gathered : World.perform (gather World.host invocation output) world with
    | mk outcome prepared =>
      rw [gathered] at opens early
      cases outcome with
      | error failure => exact .inl ⟨failure, rfl, early failure rfl, opens⟩
      | ok material =>
        obtain ⟨done, left, written⟩ := writePages_written output material.preamble []
          (material.pages options).entries prepared
        exact .inr ⟨options, material, prepared, _, done, left, rfl, rfl, opens, rfl, written⟩

/-- The pages that a run has written stand in their files, and besides them it has added directories
at most. -/
theorem PagesWritten.leavesPages {preamble : Option Text} {pages : Dict Text}
    {before prepared after : FileSystem} {result : Except Failure Unit}
    {done left : List (Text × Text)} (opens : before.OpensAlong output.ancestors prepared)
    (written : PagesWritten output preamble [] pages.entries prepared result after done left)
    (named : output ≠ []) (slashless : ∀ space ∈ pages.keys, '/' ∉ space) :
    LeavesPages output preamble pages before after (.of result) done left := by
  have grows := opens.grows.trans written.wrote.grows
  have holds := written.contents?_eq named slashless
  refine ⟨written.all, written.endsBetween, written.clash_iff, fun page listed => ?_,
    fun clashed => ?_, fun place free differs => ?_⟩
  · have stored := holds page listed
    have stands := FileSystem.at?_of_contents? stored
    rw [grows.placeOf_eq] at stands
    exact ⟨stored, stands⟩
  · obtain ⟨empty, -, earlier⟩ := written.clash_iff.1 clashed
    obtain ⟨⟨_, page⟩, listed, rfl⟩ := List.mem_map.1 (earlier [] empty (List.nil_lt_cons _ _))
    have entry : ([], page) ∈ pages.entries := by
      rw [written.all]
      exact List.mem_append_left _ listed
    exact ⟨page, Dict.mem_entries_iff.1 entry, holds _ listed⟩
  · have kept : after.at? place = prepared.at? place := by
      by_contra changed
      obtain ⟨write, listed, here⟩ := written.wrote.exists_of_at?_ne changed
      obtain ⟨page, among, rfl⟩ := List.mem_map.1 listed
      rw [opens.grows.placeOf_eq] at here
      exact free page among here
    rw [kept] at differs
    obtain ⟨empty, opened, leads⟩ := opens.opened place differs
    exact ⟨empty, kept.trans opened, leads⟩

/-- A run with input files fails before it writes pages or stops between two of them. In the first
case it changes no file, and only directories on the way to the pages can be new. In the second
case, when no namespace has a slash, the pages before the one that cannot be written are in their
files as after a run that is done, and nothing else has changed; so the page of the namespace
without a name is still there when that of another namespace would take its file. -/
theorem run_stops_between_pages (read : Invocation.read arguments = .ok invocation)
    (inputs : invocation.inputs ≠ []) (world : World) :
    let ended := (run World.host arguments).run world
    let before := world.files
    let after := ended.2.files
    (∀ failure, ended.1 = .failed failure → failure.stopsWriting = false →
      (∀ place, ¬ FileChanged before after place) ∧
      ∀ place, after.at? place ≠ before.at? place →
        NewDirectory before after invocation.way place) ∧
    ((∀ failure, ended.1 = .failed failure → failure.stopsWriting = true) →
      ∃ output options material prepared, invocation.output = some output ∧
        invocation.options = .ok options ∧
        World.perform (gather World.host invocation output) world = (.ok material, prepared) ∧
        ((∀ space ∈ material.namespaces.keys, '/' ∉ space) →
          ∃ done left, LeavesPages output material.preamble (material.pages options) before after
            ended.1 done left)) := by
  intro ended before after
  -- An early failure is none of those that stop the writing of pages.
  have ofEarly : FailsEarly invocation world ended →
      (∀ place, ¬ FileChanged before after place) ∧
        (∀ place, after.at? place ≠ before.at? place →
          NewDirectory before after invocation.way place) ∧
        ¬ ∀ failure, ended.1 = .failed failure → failure.stopsWriting = true := by
    rintro ⟨failure, failed, early, opens⟩
    refine ⟨opens.not_fileChanged, opens.opened, fun late => ?_⟩
    exact Bool.false_ne_true (early.symm.trans (late failure failed))
  cases asked : invocation.output with
  | none =>
    obtain ⟨files, directories, early⟩ := ofEarly (failsEarly_of_none read inputs asked world)
    exact ⟨fun _ _ _ => ⟨files, directories⟩, fun late => absurd late early⟩
  | some output =>
    have request : FileRequest arguments invocation output := ⟨read, inputs, asked⟩
    rcases request.failsEarly_or_writes world with fails | ⟨options, material, prepared, result,
        done, left, chosen, gathered, opens, ending, written⟩
    · obtain ⟨files, directories, early⟩ := ofEarly fails
      exact ⟨fun _ _ _ => ⟨files, directories⟩, fun late => absurd late early⟩
    have ends := written.endsBetween
    refine ⟨fun failure failed early => ?_, fun _ => ⟨output, options, material, prepared, rfl,
      chosen, gathered, fun slashless => ⟨done, left, ?_⟩⟩⟩
    · rw [← ending, failed] at ends
      cases left with
      | nil => cases ends
      | cons page rest =>
        rcases ends with ⟨-, -, clashed⟩ | ⟨-, refused⟩
        · cases clashed
          cases early
        · cases refused
          cases early
    · rw [ending]
      rw [← material.keys_pages options] at slashless
      exact written.leavesPages opens request.output_ne_nil slashless

set_option maxRecDepth 100000 in
/-- A run with four namespaces stops at the third one, whose page has the name of the first. -/
theorem run_stops_between_pages_of_clash :
    let world := World.ofFiles [("a.xml", "<doc><members><member name=\"T:ab.Y\"/>" ++
      "<member name=\"T:_global.X\"/><member name=\"T:Shapes.Arc\"/><member name=\"T:Red\"/>" ++
      "</members></doc>")] ""
    let output := "out".toList
    let invocation : Invocation := { inputs := ["a.xml".toList], output := some output }
    let arguments := ["-o".toList, output, "a.xml".toList]
    let ended := (run World.host arguments).run world
    let after := ended.2.files
    Invocation.read arguments = .ok invocation ∧ invocation.inputs ≠ [] ∧
    ended.1 = .failed (.clash [] "_global".toList "_global".toList) ∧
    ∃ material prepared done left,
      World.perform (gather World.host invocation output) world = (.ok material, prepared) ∧
      material.namespaces.keys = [[], "Shapes".toList, "_global".toList, "ab".toList] ∧
      LeavesPages output material.preamble (material.pages {}) world.files after ended.1 done
        left ∧
      "Shapes".toList ∈ done.map (·.1) ∧
      ∃ page, (material.pages {}).get? [] = some page ∧
        after.contents? "out/_global.md".toList =
          some (.text (pageDocument material.preamble [] page)) := by
  intro world output invocation arguments ended after
  have read : Invocation.read arguments = .ok invocation := by decide +kernel
  have inputs : invocation.inputs ≠ [] := by decide
  have clashed : ended.1 = .failed (.clash [] "_global".toList "_global".toList) := by
    decide +kernel
  obtain ⟨-, leaves⟩ := run_stops_between_pages read inputs world
  have late : ∀ failure, ended.1 = .failed failure → failure.stopsWriting = true := by
    intro failure failed
    rw [clashed] at failed
    obtain rfl := Ending.failed.inj failed
    rfl
  obtain ⟨own, options, material, prepared, asked, known, gathered, slashless⟩ := leaves late
  obtain rfl : output = own := Option.some.inj asked
  obtain rfl : {} = options := Except.ok.inj known
  have spaces : (World.perform (gather World.host invocation output) world).1.toOption.map
      (·.namespaces.keys) = some [[], "Shapes".toList, "_global".toList, "ab".toList] := by
    decide +kernel
  rw [gathered] at spaces
  have keys : material.namespaces.keys = [[], "Shapes".toList, "_global".toList, "ab".toList] :=
    Option.some.inj spaces
  obtain ⟨done, left, state⟩ := slashless (by rw [keys]; decide)
  have clash : ∃ first second name, ended.1 = .failed (.clash first second name) :=
    ⟨_, _, _, clashed⟩
  obtain ⟨-, -, earlier⟩ := state.clash.1 clash
  have before : "Shapes".toList ∈ done.map (·.1) := by
    refine earlier _ ?_ (by decide)
    rw [material.keys_pages, keys]
    decide
  exact ⟨read, inputs, clashed, material, prepared, done, left, gathered, keys, state, before,
    state.keeps clash⟩

end ApiPages
