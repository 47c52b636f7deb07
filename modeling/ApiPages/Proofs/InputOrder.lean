import ApiPages.Proofs.GatheredInputs
import ApiPages.Proofs.PageFiles

/-!
# Order of the inputs

How a run with input files ends, what it prints and what it does to the files depends on its inputs
only by the set of paths that they name. Their order, their spellings, their repetition and whether
files are named one by one or by their directories make no difference.
-/
namespace ApiPages

variable {α β : Type}

/-! ### Agreement but for the log -/

/-- Two results agree if both give the same value, or none, and the worlds differ in their logs at
most. -/
def Agree (first second : Except Failure α × World) : Prop :=
  first.1.toOption = second.1.toOption ∧ ∃ log, second.2 = { first.2 with log }

namespace Agree

/-- A result agrees with itself. -/
theorem refl (result : Except Failure α × World) : Agree result result :=
  ⟨rfl, result.2.log, rfl⟩

/-- What gives the same value in a world agrees there. -/
theorem of_gives {first second : ExceptT Failure (StateM World) α} {value : Option α}
    {world : World} (one : Gives world.files first value) (two : Gives world.files second value) :
    Agree (World.perform first world) (World.perform second world) := by
  obtain ⟨gave, log, after⟩ := one world rfl
  obtain ⟨gave', log', after'⟩ := two world rfl
  refine ⟨gave.trans gave'.symm, log', ?_⟩
  rw [after, after']

/-- Steps that agree are followed by steps that agree if these do for every log. -/
theorem bind {first second : ExceptT Failure (StateM World) α} {world other : World}
    {next : α → ExceptT Failure (StateM World) β}
    (agree : Agree (World.perform first world) (World.perform second other))
    (later : ∀ value world log,
      Agree (World.perform (next value) world) (World.perform (next value) { world with log })) :
    Agree (World.perform (first >>= next) world) (World.perform (second >>= next) other) := by
  rw [World.perform_bind, World.perform_bind]
  obtain ⟨same, log, after⟩ := agree
  rcases one : World.perform first world with ⟨result, behind⟩
  rcases two : World.perform second other with ⟨result', behind'⟩
  rw [one, two] at same after
  obtain rfl : behind' = { behind with log } := after
  cases result with
  | error failure =>
    cases result' with
    | error other => exact ⟨rfl, log, rfl⟩
    | ok value => cases same
  | ok value =>
    cases result' with
    | error failure => cases same
    | ok other =>
      obtain rfl : value = other := Option.some.inj same
      exact later value behind log

end Agree

/-- What is written does not depend on the log. -/
theorem writePages_agree (output : Path) (preamble : Option Text)
    (written pages : List (Text × Text)) (world : World) (log : List Event) :
    Agree (World.perform (writePages World.host output preamble written pages) world)
      (World.perform (writePages World.host output preamble written pages)
        { world with log }) := by
  induction pages generalizing written world with
  | nil => exact ⟨rfl, log, rfl⟩
  | cons page rest ih =>
    rw [perform_writePages_cons, perform_writePages_cons]
    cases written.find? (·.1 = Markdown.pageName page.1) with
    | some earlier => exact ⟨rfl, log, rfl⟩
    | none =>
      simp only
      cases world.files.target? (pageWrite output preamble page).1 with
      | none => exact ⟨rfl, log, rfl⟩
      | some place => exact ih _ (world.store place (pageWrite output preamble page).2)

/-- The exit code of a run tells at most whether something failed. -/
theorem Ending.code_of (result : Except Failure Unit) :
    (Ending.of result).code = if result.toOption = none then 1 else 0 := by
  cases result <;> rfl

/-! ### The same paths -/

/-- The paths that inputs name: that of every file, and those of the documentation files directly
inside every directory. Spellings with the same components are one path. -/
def FileSystem.pathsNamed (system : FileSystem) (inputs : List Path) : List (List Component) :=
  (inputs.flatMap system.filesNamed).map Path.components

/-- Invocations that ask for the same pages if their inputs hold the same. -/
structure Invocation.SameOptions (first second : Invocation) : Prop where
  /-- The directory of the pages is the same. -/
  output : first.output = second.output
  /-- The preamble is sought in the same place. -/
  preamble : first.preamble = second.preamble
  /-- The line separator is the same. -/
  newline : first.newline = second.newline
  /-- Both ask for an index, or none does. -/
  withIndex : first.withIndex = second.withIndex

/-- The same settings make the same options. -/
theorem Invocation.SameOptions.options_eq {first second : Invocation}
    (alike : first.SameOptions second) : first.options = second.options := by
  rw [Invocation.options, Invocation.options, alike.newline, alike.withIndex]

/-- Inputs that name the same paths of a world. -/
structure SameInputs (world : World) (first second : List Path) : Prop where
  /-- All of them exist. -/
  stands : ∀ input ∈ first ++ second, (world.files.kind? input).isSome
  /-- The paths are the same, in whatever order and however often. -/
  paths : ∀ path, path ∈ world.files.pathsNamed first ↔ path ∈ world.files.pathsNamed second

/-- Inputs that name the same paths are gathered alike. -/
theorem gather_agree {first second : Invocation} (alike : first.SameOptions second)
    {output : Path} {world : World} (slashless : world.files.Slashless)
    (same : SameInputs world first.inputs second.inputs) :
    Agree (World.perform (gather World.host first output) world)
      (World.perform (gather World.host second output) world) := by
  obtain ⟨adds, -⟩ := makeDirectories_opens output world
  rw [perform_gather, perform_gather]
  generalize (World.host.makeDirectories output).run world = made at adds
  obtain ⟨opened, prepared⟩ := made
  cases opened with
  | false =>
    rw [if_neg Bool.false_ne_true, if_neg Bool.false_ne_true]
    exact .refl _
  | true =>
    rw [if_pos rfl, if_pos rfl]
    -- Directories that have been made on the way change no source.
    have keeps : world.files.KeepsSources prepared.files := adds.keepsSources
    have exist : ∀ input ∈ first.inputs ++ second.inputs,
        (prepared.files.kind? input).isSome := fun input listed =>
      keeps.grows.isSome_kind? (same.stands input listed)
    have merged : prepared.files.merged? first.inputs = prepared.files.merged? second.inputs := by
      rw [keeps.merged?_congr slashless same.stands same.paths,
        keeps.merged?_eq slashless fun input listed =>
          same.stands input (List.mem_append_right _ listed)]
    obtain ⟨value, preamble⟩ := findPreamble_gives first.preamble output
    have one := gatherInputs_gives preamble fun input listed =>
      exist input (List.mem_append_left _ listed)
    have two := gatherInputs_gives (alike.preamble ▸ preamble) fun input listed =>
      exist input (List.mem_append_right _ listed)
    rw [merged] at one
    exact .of_gives one two

/-- How a run with input files ends, what it prints and what it does to the files is told from its
options and from the set of paths that its inputs name. How much is logged makes no difference. -/
theorem run_congr_of_pathsNamed {first second : List Text} {one two : Invocation} {world : World}
    (readFirst : Invocation.read first = .ok one) (readSecond : Invocation.read second = .ok two)
    (alike : one.SameOptions two) (inputs : one.inputs ≠ []) (others : two.inputs ≠ [])
    (slashless : world.files.Slashless) (same : SameInputs world one.inputs two.inputs) :
    let ran := (run World.host first).run world
    let other := (run World.host second).run world
    ran.1.code = other.1.code ∧ ran.2.output = other.2.output ∧ ran.2.files = other.2.files := by
  have agree : Agree (World.perform (runInvocation World.host one) world)
      (World.perform (runInvocation World.host two) world) := by
    rw [runInvocation_eq, runInvocation_eq, ← alike.options_eq]
    cases one.options with
    | error unknown => exact .refl _
    | ok options =>
      simp only [List.isEmpty_iff, if_neg inputs, if_neg others]
      cases asked : one.output with
      | none =>
        rw [runFiles, runFiles, ← alike.output, asked]
        exact .refl _
      | some output =>
        rw [runFiles_eq options asked, runFiles_eq options (alike.output ▸ asked)]
        exact (gather_agree alike slashless same).bind fun material world log =>
          writePages_agree _ _ _ _ world log
  obtain ⟨given, log, after⟩ := agree
  intro ran other
  simp only [ran, other, run_read readFirst, run_read readSecond, Ending.code_of, given, after,
    and_self]

set_option maxRecDepth 100000 in
/-- A directory and its files one by one, in another order and with a detour and a repetition. -/
theorem run_congr_of_pathsNamed_of_directory :
    let document (name : String) : Entry := .file (.text
      ("<doc><members><member name=\"T:" ++ name ++ "\"/></members></doc>").toList)
    let inside (names : List String) : Place := ("w" :: names).map String.toList
    let world : World := {
      files := {
        entries := [(inside [], .directory), (inside ["d"], .directory),
          (inside ["d", "b.xml"], document "Red.B"), (inside ["d", "a.xml"], document "Red.A"),
          (inside ["d", "c.xml"], .directory), (inside ["d", "n.txt"], document "Red.N")]
        working := inside [] }
      input := .text [] }
    let first := ["-o", "out", "d"].map String.toList
    let second := ["-o", "out", "d/b.xml", "d/./a.xml", "d/b.xml"].map String.toList
    let one : Invocation := { inputs := first.drop 2, output := some "out".toList }
    let two : Invocation := { inputs := second.drop 2, output := some "out".toList }
    let ran := (run World.host first).run world
    let other := (run World.host second).run world
    Invocation.read first = .ok one ∧ Invocation.read second = .ok two ∧
    one.SameOptions two ∧ one.inputs ≠ [] ∧ two.inputs ≠ [] ∧ world.files.Slashless ∧
    SameInputs world one.inputs two.inputs ∧
    ran.1.code = other.1.code ∧ ran.2.output = other.2.output ∧ ran.2.files = other.2.files := by
  intro document inside world first second one two ran other
  have readFirst : Invocation.read first = .ok one := by decide +kernel
  have readSecond : Invocation.read second = .ok two := by decide +kernel
  have alike : one.SameOptions two := ⟨rfl, rfl, rfl, rfl⟩
  have slashless : world.files.Slashless := FileSystem.slashless_of_entries (by decide +kernel)
  have there : world.files.pathsNamed one.inputs ⊆ world.files.pathsNamed two.inputs := by
    decide +kernel
  have back : world.files.pathsNamed two.inputs ⊆ world.files.pathsNamed one.inputs := by
    decide +kernel
  have same : SameInputs world one.inputs two.inputs :=
    ⟨by decide +kernel, fun path => ⟨fun listed => there listed, fun listed => back listed⟩⟩
  have inputs : one.inputs ≠ [] := by decide
  have others : two.inputs ≠ [] := by decide
  exact ⟨readFirst, readSecond, alike, inputs, others, slashless, same,
    run_congr_of_pathsNamed readFirst readSecond alike inputs others slashless same⟩

end ApiPages
