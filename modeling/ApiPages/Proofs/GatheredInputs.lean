import ApiPages.Proofs.Gathering
import ApiPages.Proofs.NamedFiles

/-!
# What a run gathers

What a run gathers from inputs that exist is told from the files alone: the preamble, and the merged
namespaces of the files that the inputs name. While it gathers, nothing but the log changes.
-/
namespace ApiPages

variable {α β : Type} {system : FileSystem}

/-- In every world with given files an action gives a value, or fails if there is none, and changes
nothing but the log. -/
def Gives (system : FileSystem) (action : ExceptT Failure (StateM World) α) (value : Option α) :
    Prop := ∀ world, world.files = system →
  (World.perform action world).1.toOption = value ∧
    ∃ log, (World.perform action world).2 = { world with log }

namespace Gives

/-- Doing nothing gives the value. -/
theorem pure (value : α) : Gives system (Pure.pure value) (some value) :=
  fun world _ => ⟨rfl, world.log, rfl⟩

/-- A failure gives no value. -/
theorem throw (failure : Failure) :
    Gives system (MonadExcept.throw failure : ExceptT Failure (StateM World) α) none :=
  fun world _ => ⟨rfl, world.log, rfl⟩

/-- A question about the files. -/
theorem ask {question : StateM World α} (answer : FileSystem → α)
    (asked : ∀ world, question.run world = (answer world.files, world)) :
    Gives system (liftM question) (some (answer system)) := by
  rintro world rfl
  rw [World.perform_lift, asked]
  exact ⟨rfl, world.log, rfl⟩

/-- What follows a step goes on with the value that the step gives, if it gives one. -/
theorem bind {action : ExceptT Failure (StateM World) α} {value : Option α}
    {next : α → ExceptT Failure (StateM World) β} {further : α → Option β}
    (first : Gives system action value)
    (later : ∀ found, value = some found → Gives system (next found) (further found)) :
    Gives system (action >>= next) (value.bind further) := by
  intro world here
  obtain ⟨given, log, after⟩ := first world here
  rw [World.perform_bind]
  cases performed : World.perform action world with
  | mk result behind =>
    rw [performed] at given after
    obtain rfl : behind = { world with log } := after
    cases result with
    | error failure =>
      obtain rfl : value = none := given.symm
      exact ⟨rfl, log, rfl⟩
    | ok found =>
      have own : value = some found := given.symm
      obtain ⟨given, log', after⟩ := later found own { world with log } here
      rw [own]
      exact ⟨given, log', after⟩

/-- A step behind one that gives a value. -/
theorem bind_some {action : ExceptT Failure (StateM World) α} {found : α}
    {next : α → ExceptT Failure (StateM World) β} {value : Option β}
    (first : Gives system action (some found)) (later : Gives system (next found) value) :
    Gives system (action >>= next) value :=
  @bind _ _ _ _ _ _ (fun _ => value) first fun _ own => Option.some.inj own ▸ later

/-- Steps for the values of a list give a list of values, if each of them gives one. -/
theorem mapM {list : List α} {step : α → ExceptT Failure (StateM World) β} {value : α → Option β}
    (each : ∀ item ∈ list, Gives system (step item) (value item)) :
    Gives system (list.mapM step) (list.mapM value) := by
  induction list with
  | nil => exact pure []
  | cons head rest ih =>
    obtain ⟨own, others⟩ := List.forall_mem_cons.1 each
    rw [List.mapM_cons, List.mapM_cons]
    exact own.bind fun first _ => (ih others).bind fun more _ => pure (first :: more)

end Gives

/-- A report changes the log only. -/
theorem reportAll_gives (threshold : Level) (events : List Event) :
    Gives system (liftM (World.host.reportAll threshold events)) (some ()) := by
  intro world here
  refine ⟨rfl, ?_⟩
  rw [World.perform_lift, Host.reportAll]
  clear here
  induction events.filter (·.shownAt threshold) generalizing world with
  | nil => exact ⟨world.log, rfl⟩
  | cons event rest ih => exact ih { world with log := world.log ++ [event] }

/-- An input gives the namespaces of the document that it holds. -/
theorem readInput_gives (threshold : Level) (path : Path) :
    Gives system (readInput World.host threshold path)
      ((system.document? path).map (path, ·)) := by
  have text : Gives system (liftM (World.host.readText? path))
      (some ((system.contents? path).bind Contents.text?)) :=
    .ask (fun files => (files.contents? path).bind Contents.text?) fun _ => rfl
  rw [readInput, FileSystem.document?]
  refine text.bind_some ?_
  cases (system.contents? path).bind Contents.text? with
  | none => exact .throw _
  | some source =>
    simp only [Option.bind_some]
    cases readSource path source with
    | error error => exact .throw _
    | ok root => exact (reportAll_gives threshold _).bind_some (.pure (path, (correct root).1))

/-- The files in a list of paths are found without a change. -/
theorem filterM_isFile_gives (paths : List Path) :
    Gives system (liftM (paths.filterM World.host.isFile))
      (some (paths.filter fun path => system.kind? path = some .file)) := by
  intro world here
  have asked : ∀ path, (World.host.isFile path).run world =
      (decide (system.kind? path = some .file), world) := by
    intro path
    rw [← here, ← beq_eq_decide]
    rfl
  have further : ∀ kept, (paths.filterAuxM World.host.isFile kept).run world =
      ((paths.filter fun path => system.kind? path = some .file).reverse ++ kept, world) := by
    induction paths with
    | nil => exact fun _ => rfl
    | cons path rest ih =>
      intro kept
      have step : ((path :: rest).filterAuxM World.host.isFile kept).run world =
          (rest.filterAuxM World.host.isFile
            (cond ((World.host.isFile path).run world).1 (path :: kept) kept)).run
              ((World.host.isFile path).run world).2 := rfl
      rw [step, asked, ih]
      by_cases file : system.kind? path = some .file <;> simp [file]
  have whole : (paths.filterM World.host.isFile).run world =
      (((paths.filterAuxM World.host.isFile []).run world).1.reverse,
        ((paths.filterAuxM World.host.isFile []).run world).2) := rfl
  rw [World.perform_lift, whole, further, List.append_nil, List.reverse_reverse]
  exact ⟨rfl, world.log, rfl⟩

/-- An input that exists gives the files that it names. -/
theorem filesOf_gives (threshold : Level) {input : Path} (stands : (system.kind? input).isSome) :
    Gives system (filesOf World.host threshold input) (some (system.filesNamed input)) := by
  have kind : Gives system (liftM (World.host.kind? input)) (some (system.kind? input)) :=
    .ask (fun files => files.kind? input) fun _ => rfl
  rw [filesOf]
  refine kind.bind_some ?_
  rcases own : system.kind? input with _ | _ | _
  · rw [own] at stands
    cases stands
  · rw [FileSystem.filesNamed_of_file own]
    exact .pure _
  · obtain ⟨place, opened⟩ := FileSystem.exists_of_kind?_directory own
    have entries : Gives system (liftM (World.host.entries? input))
        (some (some (system.namesIn place))) := by
      have listed : system.entries? input = some (system.namesIn place) := by
        rw [FileSystem.entries?, opened]
      rw [← listed]
      exact .ask (fun files => files.entries? input) fun _ => rfl
    have names : system.filesNamed input =
        (((system.namesIn place).map input.join).filter isSupported).filter
          fun path => system.kind? path = some .file := by
      rw [FileSystem.filesNamed, own]
      simp only [FileSystem.entries?, opened, Option.getD_some, List.filter_filter]
      refine List.filter_congr fun path _ => ?_
      simp [Bool.and_comm]
    rw [names]
    exact entries.bind_some (filterM_isFile_gives _)

/-- Inputs that exist give the sorted files that they name. -/
theorem inputFiles_gives (threshold : Level) {inputs : List Path}
    (stands : ∀ input ∈ inputs, (system.kind? input).isSome) :
    Gives system (inputFiles World.host threshold inputs)
      (some (Path.sortUnique (inputs.flatMap system.filesNamed))) := by
  have each := Gives.mapM fun input listed => filesOf_gives threshold (stands input listed)
  have all : inputs.mapM (fun input => some (system.filesNamed input)) =
      some (inputs.map system.filesNamed) := List.mapM_pure
  rw [all] at each
  rw [List.flatMap_def]
  exact each.bind_some (.pure _)

/-- Whether a file stands at a path. -/
theorem isFile_gives (path : Path) :
    Gives system (liftM (World.host.isFile path)) (some (system.kind? path == some .file)) :=
  .ask (fun files => files.kind? path == some .file) fun _ => rfl

/-- The preamble in a file, if it can be read; without such a file there is no preamble. -/
def FileSystem.preamble? (system : FileSystem) (path : Path) : Option (Option Text) :=
  if system.kind? path = some .file then ((system.contents? path).bind Contents.text?).map some
  else some none

/-- Reading a preamble gives the one in the file. -/
theorem readPreamble_gives (path : Path) :
    Gives system (readPreamble World.host path) (system.preamble? path) := by
  rw [readPreamble, FileSystem.preamble?]
  refine (isFile_gives path).bind_some ?_
  by_cases file : system.kind? path = some .file
  · have text : Gives system (liftM (World.host.readText? path))
        (some ((system.contents? path).bind Contents.text?)) :=
      .ask (fun files => (files.contents? path).bind Contents.text?) fun _ => rfl
    rw [if_pos file, if_pos (beq_iff_eq.2 file)]
    refine text.bind_some ?_
    cases (system.contents? path).bind Contents.text? with
    | none => exact .throw _
    | some text => exact .pure (some text)
  · rw [if_neg file, if_neg (mt beq_iff_eq.1 file)]
    exact .pure none

/-- Which preamble is found is told from the files. -/
theorem findPreamble_gives (asked : Option Path) (output : Path) :
    ∃ value, Gives system (findPreamble World.host asked output) value := by
  cases asked with
  | none => exact ⟨_, readPreamble_gives _⟩
  | some path =>
    have kind : Gives system (liftM (World.host.kind? path)) (some (system.kind? path)) :=
      .ask (fun files => files.kind? path) fun _ => rfl
    have beside : ∃ value, Gives system
        (do
          if ← World.host.isFile (path.withFileName preambleFile) then
            readPreamble World.host (path.withFileName preambleFile)
          else throw (.preambleMissing path)) value := by
      have asked := @isFile_gives system (path.withFileName preambleFile)
      cases present : system.kind? (path.withFileName preambleFile) == some .file with
      | true => exact ⟨_, (present ▸ asked).bind_some (readPreamble_gives _)⟩
      | false => exact ⟨_, (present ▸ asked).bind_some (.throw _)⟩
    rw [findPreamble]
    rcases own : system.kind? path with _ | _ | _
    · obtain ⟨value, gives⟩ := beside
      exact ⟨value, (own ▸ kind).bind_some gives⟩
    · exact ⟨_, (own ▸ kind).bind_some (readPreamble_gives _)⟩
    · exact ⟨_, (own ▸ kind).bind_some (readPreamble_gives _)⟩

/-- Steps that keep their items beside what they give, without the items. -/
theorem mapM_beside (read : α → Option β) (list : List α) :
    (list.mapM fun item => (read item).map (item, ·)).map (List.map Prod.snd) =
      list.mapM read := by
  induction list with
  | nil => rfl
  | cons head rest ih =>
    rw [List.mapM_cons, List.mapM_cons, ← ih]
    cases read head with
    | none => rfl
    | some value => cases rest.mapM fun item => (read item).map (item, ·) <;> rfl

/-- What a run gathers from inputs that exist: the preamble, and the merged namespaces of the files
that the inputs name. -/
theorem gatherInputs_gives {invocation : Invocation} {output : Path} {value : Option (Option Text)}
    (preamble : Gives system (findPreamble World.host invocation.preamble output) value)
    (stands : ∀ input ∈ invocation.inputs, (system.kind? input).isSome) :
    Gives system (gatherInputs World.host invocation output)
      (value.bind fun preamble =>
        (system.merged? invocation.inputs).map (Material.mk preamble)) := by
  have read : ∀ files : List Path, Gives system
      (files.mapM (readInput World.host (.ofVerbosity invocation.verbosity)))
      (files.mapM fun path => (system.document? path).map (path, ·)) := fun files =>
    .mapM fun path _ => readInput_gives _ path
  have merged : ∀ (preamble : Option Text) (files : List Path),
      (files.mapM fun path => (system.document? path).map (path, ·)).bind
          (fun corrected => some (Material.mk preamble (.merge corrected))) =
        ((files.mapM system.document?).map fun documents =>
          documents.foldl Namespaces.addAll .empty).map (Material.mk preamble) := by
    intro preamble files
    rw [← mapM_beside system.document?]
    cases files.mapM fun path => (system.document? path).map (path, ·) with
    | none => rfl
    | some corrected =>
      simp only [Option.bind_some, Option.map_some, List.foldl_map]
      rfl
  refine preamble.bind fun preamble _ => ?_
  refine (inputFiles_gives _ stands).bind_some ?_
  rw [FileSystem.merged?, ← merged]
  exact (read _).bind fun corrected _ => (reportAll_gives _ _).bind_some (.pure _)

/-- Unless it is asked for elsewhere, the preamble is sought in the directory of the pages. -/
theorem gatherInputs_gives_of_none {invocation : Invocation} (output : Path)
    (plain : invocation.preamble = none)
    (stands : ∀ input ∈ invocation.inputs, (system.kind? input).isSome) :
    Gives system (gatherInputs World.host invocation output)
      ((system.preamble? (output.join preambleFile)).bind fun preamble =>
        (system.merged? invocation.inputs).map (Material.mk preamble)) := by
  apply gatherInputs_gives _ stands
  rw [plain]
  exact readPreamble_gives _

end ApiPages
