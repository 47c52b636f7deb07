import ApiPages.CommandLine.Run
import ApiPages.Proofs.Asking
import ApiPages.Proofs.Dictionaries
import ApiPages.Proofs.OutputRequested
import ApiPages.Proofs.Writing

/-!
# Runs with input files

A run with input files first gathers what its pages are made of. By then the directories on the way
to the pages may have been made, but no file has changed. After that the run only writes pages, so
what it does to the files is what `writePages` does.
-/
namespace ApiPages

/-! ### Directories on the way -/

/-- An action that adds directories, the one of a named path among them when it says so. -/
def Opens (path : Path) (action : StateM World Bool) : Prop := ∀ world,
  FileSystem.AddsDirectories world.files (action.run world).2.files ∧
    ((action.run world).1 = true → path ≠ [] →
      (action.run world).2.files.kind? path = some .directory)

/-- An action that only says no adds nothing and claims nothing. -/
theorem pure_false_opens (path : Path) : Opens path (pure false) :=
  fun _ => ⟨.refl _, nofun⟩

/-- Asking for a directory adds none, and says yes only of one that stands. -/
theorem isDirectory_opens (path : Path) : Opens path (World.host.isDirectory path) :=
  fun _ => ⟨.refl _, fun opened _ => eq_of_beq opened⟩

/-- A second action opens its directory whatever the first one has said. -/
theorem Opens.bind {path outer : Path} {action : StateM World Bool}
    {next : Bool → StateM World Bool} (before : Opens outer action)
    (later : ∀ opened, Opens path (next opened)) : Opens path (action >>= next) := by
  intro world
  obtain ⟨adds, -⟩ := before world
  obtain ⟨more, stands⟩ := later (action.run world).1 (action.run world).2
  exact ⟨adds.trans more, stands⟩

/-- To make a directory, and to do something else unless it has been made. -/
theorem makeDirectory_opens {path : Path} {next : Making → StateM World Bool}
    (made : next .made = pure true) (refused : Opens path (next .refused))
    (noParent : Opens path (next .noParent)) :
    Opens path (World.host.makeDirectory path >>= next) := by
  intro world
  obtain ⟨adds, found⟩ := world.files.makeDirectory_adds path
  let after : World := { world with files := (world.files.makeDirectory path).2 }
  have step : (World.host.makeDirectory path >>= next).run world =
      (next (world.files.makeDirectory path).1).run after := rfl
  rw [step]
  cases making : (world.files.makeDirectory path).1 with
  | made =>
    rw [made]
    exact ⟨adds, fun _ _ => found making⟩
  | refused =>
    obtain ⟨more, stands⟩ := refused after
    exact ⟨adds.trans more, stands⟩
  | noParent =>
    obtain ⟨more, stands⟩ := noParent after
    exact ⟨adds.trans more, stands⟩

/-- Making a directory after those on the way to it opens it. -/
theorem makeInside_opens (paths : List Path) :
    Opens (paths.headD []) (World.host.makeInside paths) := by
  induction paths with
  | nil => exact pure_false_opens _
  | cons path outer ih =>
    cases path with
    | nil => exact fun _ => ⟨.refl _, fun _ named => absurd rfl named⟩
    | cons head rest =>
      rw [Host.makeInside]
      · refine makeDirectory_opens rfl (isDirectory_opens _) (ih.bind fun opened => ?_)
        cases opened with
        | false => exact pure_false_opens _
        | true => exact makeDirectory_opens rfl (isDirectory_opens _) (isDirectory_opens _)
      · nofun

/-- Making a directory and those on the way to it opens it. -/
theorem makeDirectories_opens (path : Path) : Opens path (World.host.makeDirectories path) := by
  have first : path.ancestors.headD [] = path := by
    rw [Path.ancestors]
    split <;> rfl
  have opens := makeInside_opens path.ancestors
  rwa [first] at opens

/-! ### Gathering -/

/-- What the pages of a run are made of. -/
structure Material where
  /-- The preamble of every page. -/
  preamble : Option Text
  /-- The merged documents of all input files. -/
  namespaces : Namespaces

section

variable {m : Type → Type} [Monad m]

/-- What a run with input files gathers once the directory of its pages stands. -/
def gatherInputs (host : Host m) (invocation : Invocation) (output : Path) :
    ExceptT Failure m Material := do
  let threshold := Level.ofVerbosity invocation.verbosity
  let preamble ← findPreamble host invocation.preamble output
  let files ← inputFiles host threshold invocation.inputs
  let corrected ← files.mapM (readInput host threshold)
  host.reportAll threshold (Namespaces.mergeEvents corrected)
  pure ⟨preamble, .merge corrected⟩

/-- What a run with input files does before it writes pages. -/
def gather (host : Host m) (invocation : Invocation) (output : Path) :
    ExceptT Failure m Material := do
  if ← host.makeDirectories output then gatherInputs host invocation output
  else throw (.outputRefused output)

end

/-- Gathering inputs changes no file. -/
theorem gatherInputs_asks (invocation : Invocation) (output : Path) :
    askingOrFailing.Holds (gatherInputs World.host invocation output) := by
  refine askingOrFailing.bind (findPreamble_asks _ _) fun preamble => ?_
  refine askingOrFailing.bind (inputFiles_asks _ _) fun files => ?_
  refine askingOrFailing.bind (askingOrFailing.mapM (readInput_asks _) files) fun corrected => ?_
  exact askingOrFailing.bind (askingOrFailing_lift (reportAll_asks _ _)) fun _ =>
    askingOrFailing.pure _

/-- What gathering makes of a world. -/
theorem perform_gather (invocation : Invocation) (output : Path) (world : World) :
    World.perform (gather World.host invocation output) world =
      if ((World.host.makeDirectories output).run world).1 then
        World.perform (gatherInputs World.host invocation output)
          ((World.host.makeDirectories output).run world).2
      else (.error (.outputRefused output), ((World.host.makeDirectories output).run world).2) := by
  rw [gather, World.perform_bind, World.perform_lift]
  cases ((World.host.makeDirectories output).run world).1 <;> rfl

/-- Gathering adds directories and changes no file. When it succeeds, the directory of the pages
stands at its place. -/
theorem gather_adds (invocation : Invocation) {output : Path} (named : output ≠ [])
    (world : World) :
    world.files.AddsDirectories
        (World.perform (gather World.host invocation output) world).2.files ∧
      ∀ material, (World.perform (gather World.host invocation output) world).1 = .ok material →
        (World.perform (gather World.host invocation output) world).2.files.at?
          (world.files.placeOf output) = some .directory := by
  obtain ⟨adds, stands⟩ := makeDirectories_opens output world
  rw [perform_gather]
  cases opened : ((World.host.makeDirectories output).run world).1 with
  | false => exact ⟨adds, nofun⟩
  | true =>
    rw [if_pos rfl, (gatherInputs_asks invocation output _).1]
    refine ⟨adds, fun material _ => ?_⟩
    rw [← adds.grows.placeOf_eq]
    exact FileSystem.at?_of_kind? (stands opened named)

/-! ### Runs -/

/-- How pages are to be written. -/
def Invocation.options (invocation : Invocation) : Except UnknownNewline Options :=
  ((invocation.newline.map Newline.parse).getD (.ok .native)).map (⟨·, invocation.withIndex⟩)

/-- Arguments that name input files and a directory for the pages. -/
structure FileRequest (arguments : List Text) (invocation : Invocation) (output : Path) :
    Prop where
  /-- The arguments can be read. -/
  read : Invocation.read arguments = .ok invocation
  /-- They name inputs. -/
  inputs : invocation.inputs ≠ []
  /-- They name the directory. -/
  output : invocation.output = some output

/-- The directory of the pages has a name. -/
theorem FileRequest.output_ne_nil {arguments : List Text} {invocation : Invocation}
    {output : Path} (request : FileRequest arguments invocation output) : output ≠ [] := by
  rintro rfl
  exact Invocation.output_ne_nil request.read request.output

/-- How a run ended, from what it gave. -/
def Ending.of : Except Failure Unit → Ending
  | .ok () => .done
  | .error failure => .failed failure

/-- A run is done exactly if it gave no failure. -/
theorem Ending.of_eq_done_iff {result : Except Failure Unit} :
    Ending.of result = .done ↔ result = .ok () := by
  cases result <;> simp [Ending.of]

/-- Every namespace has a page, and there are no other pages. -/
theorem Markdown.keys_pages (options : Options) (namespaces : Namespaces) :
    (Markdown.pages options namespaces).keys = namespaces.keys :=
  Dict.keys_mapValues _ _

/-- The pages of a run, in the order of their namespaces. -/
def Material.pages (material : Material) (options : Options) : Dict Text :=
  Markdown.pages options material.namespaces

/-- There is one page for each namespace. -/
@[simp]
theorem Material.keys_pages (material : Material) (options : Options) :
    (material.pages options).keys = material.namespaces.keys :=
  Markdown.keys_pages options material.namespaces

/-- A run with input files gathers what it needs and writes the pages. -/
theorem runFiles_eq (options : Options) {invocation : Invocation} {output : Path}
    (asked : invocation.output = some output) :
    runFiles World.host (.ofVerbosity invocation.verbosity) options invocation =
      gather World.host invocation output >>= fun material =>
        writePages World.host output material.preamble [] (material.pages options).entries := by
  simp only [runFiles, asked, gather, bind_assoc]
  congr 1
  funext opened
  cases opened with
  | false => rfl
  | true => simp [gatherInputs, Material.pages]

/-- A run with arguments that can be read does what they ask for. -/
theorem run_read {arguments : List Text} {invocation : Invocation}
    (read : Invocation.read arguments = .ok invocation) (world : World) :
    (run World.host arguments).run world =
      (.of (World.perform (runInvocation World.host invocation) world).1,
        (World.perform (runInvocation World.host invocation) world).2) := by
  rw [run, read]
  change ((runInvocation World.host invocation).run >>= _).run world = _
  rw [StateT.run_bind, World.perform]
  cases result : (runInvocation World.host invocation).run.run world with
  | mk outcome after => cases outcome <;> rfl

/-- A run is one in one of two modes, after its separator has been read. -/
theorem runInvocation_eq (invocation : Invocation) :
    runInvocation World.host invocation =
      match invocation.options with
      | .error unknown => throw (.unknownNewline unknown)
      | .ok options =>
        if invocation.inputs.isEmpty then
          runStream World.host (.ofVerbosity invocation.verbosity) options
        else runFiles World.host (.ofVerbosity invocation.verbosity) options invocation := by
  rw [runInvocation, Invocation.options]
  cases (invocation.newline.map Newline.parse).getD (.ok .native) <;> rfl

/-- How a run with input files ends: with the first failure while it gathers or writes, if there is
one. -/
theorem FileRequest.run_eq {arguments : List Text} {invocation : Invocation} {output : Path}
    (request : FileRequest arguments invocation output) (world : World) :
    (run World.host arguments).run world =
      match invocation.options, World.perform (gather World.host invocation output) world with
      | .error unknown, _ => (.failed (.unknownNewline unknown), world)
      | .ok _, (.error failure, after) => (.failed failure, after)
      | .ok options, (.ok material, prepared) =>
        let written := World.perform (writePages World.host output material.preamble []
          (material.pages options).entries) prepared
        (.of written.1, written.2) := by
  rw [run_read request.read, runInvocation_eq]
  cases invocation.options with
  | error unknown => rfl
  | ok options =>
    simp only [List.isEmpty_iff, if_neg request.inputs]
    rw [runFiles_eq options request.output, World.perform_bind]
    cases gathered : World.perform (gather World.host invocation output) world with
    | mk result after => cases result <;> rfl

end ApiPages
