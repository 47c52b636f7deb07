import ApiPages.Proofs.KeptPages
import ApiPages.Proofs.Confinement
import ApiPages.Proofs.Merging
import ApiPages.Proofs.Replacing

/-!
# One document in both modes

A document that is read from the standard input and one that is read from a file make the same
pages. The first run prints them one after the other, the second one writes each to a file of its
own, behind the preamble if there is one.
-/
namespace ApiPages

variable {path : Path} {source : Text}

/-! ### A run from the standard input -/

/-- Reporting prints nothing. -/
theorem reportAll_output (threshold : Level) (events : List Event) (world : World) :
    ((World.host.reportAll threshold events).run world).2.output = world.output := by
  rw [Host.reportAll]
  induction events.filter (·.shownAt threshold) generalizing world with
  | nil => rfl
  | cons event rest ih => exact ih _

/-- A run from the standard input fails on a text that is not well-formed, and prints the pages of
any other. -/
theorem perform_runStream (threshold : Level) (options : Options) {world : World}
    (piped : world.input = .text source) :
    match Xml.read source with
    | none => World.perform (runStream World.host threshold options) world =
        (.error .malformedInput, world)
    | some root =>
      (World.perform (runStream World.host threshold options) world).1 = .ok () ∧
        (World.perform (runStream World.host threshold options) world).2.output =
          world.output ++ (Markdown.pages options (correct root).1).values.flatten := by
  rw [runStream, World.perform_lift_bind]
  have input : ((World.host.input).run world).1.text? = some source := by
    change world.input.text? = some source
    rw [piped, Contents.text?]
  have same : ((World.host.input).run world).2 = world := rfl
  rw [input, same]
  simp only [convert]
  cases Xml.read source with
  | none => rfl
  | some root =>
    refine ⟨rfl, ?_⟩
    change ((World.host.reportAll threshold (correct root).2).run world).2.output ++ _ = _
    rw [reportAll_output]

/-- A run without inputs fails on a text that is not well-formed and leaves the world as it is, and
prints the pages of any other. -/
theorem run_stream {arguments : List Text} {invocation : Invocation} {options : Options}
    {world : World} (read : Invocation.read arguments = .ok invocation)
    (inputs : invocation.inputs = []) (known : invocation.options = .ok options)
    (piped : world.input = .text source) :
    match Xml.read source with
    | none => (run World.host arguments).run world = (.failed .malformedInput, world)
    | some root =>
      ((run World.host arguments).run world).1 = .done ∧
        ((run World.host arguments).run world).2.output =
          world.output ++ (Markdown.pages options (correct root).1).values.flatten := by
  have performed := perform_runStream (.ofVerbosity invocation.verbosity) options piped
  rw [run_read read, runInvocation_eq, known]
  simp only [inputs, List.isEmpty_nil, if_true]
  cases parsed : Xml.read source with
  | none =>
    simp only [parsed] at performed
    rw [performed]
    rfl
  | some root =>
    simp only [parsed] at performed
    exact ⟨Ending.of_eq_done_iff.2 performed.1, performed.2⟩

/-! ### A run with one input file -/

/-- The file of a single name is the only input. -/
theorem perform_inputFiles_single (threshold : Level) {world : World}
    (stands : world.files.kind? path = some .file) :
    World.perform (inputFiles World.host threshold [path]) world = (.ok [path], world) := by
  have kind : ((World.host.kind? path).run world).1 = some .file := stands
  have same : ((World.host.kind? path).run world).2 = world := rfl
  have own : World.perform (filesOf World.host threshold path) world = (.ok [path], world) := by
    rw [filesOf, World.perform_lift_bind, kind, same, World.perform_pure]
  simp only [inputFiles, List.mapM_cons, List.mapM_nil, World.perform_bind, own,
    World.perform_pure]
  simp [Path.sortUnique, Path.dropRepeats]

/-- Reading a documentation file fails only when its text is not well-formed. -/
theorem perform_readInput (threshold : Level) (supported : isSupported path) {world : World}
    (stored : world.files.contents? path = some (.text source)) :
    (World.perform (readInput World.host threshold path) world).1 =
      match Xml.read source with
      | none => .error (.unparsable path .malformed)
      | some root => .ok (path, (correct root).1) := by
  have text : ((World.host.readText? path).run world).1 = some source := by
    change (world.files.contents? path).bind Contents.text? = some source
    rw [stored, Option.bind_some, Contents.text?]
  rw [readInput, World.perform_lift_bind, text]
  simp only [readSource, supported, if_true]
  cases Xml.read source <;> rfl

/-- A run with one documentation file gathers its preamble and the namespaces of the file. -/
theorem perform_gatherInputs_single {invocation : Invocation} (output : Path) {world : World}
    (input : invocation.inputs = [path]) (supported : isSupported path)
    (stored : world.files.contents? path = some (.text source)) :
    (World.perform (gatherInputs World.host invocation output) world).1 =
      (World.perform (findPreamble World.host invocation.preamble output) world).1.bind
        fun preamble =>
          match Xml.read source with
          | none => .error (.unparsable path .malformed)
          | some root => .ok ⟨preamble, (correct root).1⟩ := by
  rw [gatherInputs, input]
  have asks := (findPreamble_asks invocation.preamble output world).1
  cases performed : World.perform (findPreamble World.host invocation.preamble output) world with
  | mk outcome after =>
    rw [performed] at asks
    cases outcome with
    | error failure =>
      rw [World.perform_bind_error performed]
      rfl
    | ok preamble =>
      have stored : after.files.contents? path = some (.text source) := by rw [asks, stored]
      have found := perform_inputFiles_single (.ofVerbosity invocation.verbosity)
        (FileSystem.kind?_of_contents? stored)
      have read := perform_readInput (.ofVerbosity invocation.verbosity) supported stored
      rw [World.perform_bind_ok performed, World.perform_bind_ok found]
      simp only [List.mapM_cons, List.mapM_nil, pure_bind, bind_assoc]
      cases result : World.perform (readInput World.host (.ofVerbosity invocation.verbosity) path)
          after with
      | mk corrected final =>
        rw [result] at read
        obtain rfl : corrected = _ := read
        cases parsed : Xml.read source with
        | none =>
          rw [parsed] at result
          rw [World.perform_bind_error result]
          rfl
        | some root =>
          rw [parsed] at result
          rw [World.perform_bind_ok result, World.perform_lift_bind, World.perform_pure,
            Namespaces.merge_single]
          rfl

/-- What a run with one documentation file gathers. -/
theorem perform_gather_single {invocation : Invocation} (output : Path) {world : World}
    (input : invocation.inputs = [path]) (supported : isSupported path)
    (stored : world.files.contents? path = some (.text source)) :
    (World.perform (gather World.host invocation output) world).1 =
      if ((World.host.makeDirectories output).run world).1 then
        (World.perform (findPreamble World.host invocation.preamble output)
          ((World.host.makeDirectories output).run world).2).1.bind fun preamble =>
            match Xml.read source with
            | none => .error (.unparsable path .malformed)
            | some root => .ok ⟨preamble, (correct root).1⟩
      else .error (.outputRefused output) := by
  obtain ⟨adds, -⟩ := makeDirectories_opens output world
  rw [perform_gather]
  split
  · exact perform_gatherInputs_single output input supported (adds.contents?_eq stored)
  · rfl

variable {arguments : List Text} {invocation : Invocation} {output : Path} {world : World}

/-- A run with one documentation file whose text is not well-formed fails and changes no file. -/
theorem FileRequest.run_malformed (request : FileRequest arguments invocation output)
    (input : invocation.inputs = [path]) (supported : isSupported path)
    (stored : world.files.contents? path = some (.text source))
    (malformed : Xml.read source = none) :
    ((run World.host arguments).run world).1.code = 1 ∧
      ∀ place, ¬ FileChanged world.files ((run World.host arguments).run world).2.files place := by
  have failed : ∃ failure,
      (World.perform (gather World.host invocation output) world).1 = .error failure := by
    rw [perform_gather_single output input supported stored, malformed]
    split
    · cases (World.perform (findPreamble World.host invocation.preamble output)
        ((World.host.makeDirectories output).run world).2).1 <;> exact ⟨_, rfl⟩
    · exact ⟨_, rfl⟩
  obtain ⟨failure, failed⟩ := failed
  constructor
  · rw [request.run_eq]
    cases invocation.options with
    | error unknown => rfl
    | ok options =>
      cases gathered : World.perform (gather World.host invocation output) world with
      | mk result after =>
        rw [gathered] at failed
        obtain rfl : result = .error failure := failed
        rfl
  · intro place changed
    obtain ⟨-, material, prepared, gathered, -⟩ := request.of_fileChanged changed
    rw [gathered] at failed
    cases failed

/-- A run with one documentation file writes the pages of all its namespaces, if they have distinct
names and their files can be written. -/
theorem FileRequest.run_single {options : Options} {preamble : Option Text} {root : Element}
    (request : FileRequest arguments invocation output)
    (known : invocation.options = .ok options)
    (input : invocation.inputs = [path]) (supported : isSupported path)
    (stored : world.files.contents? path = some (.text source))
    (parsed : Xml.read source = some root)
    (made : ((World.host.makeDirectories output).run world).1 = true)
    (found : (World.perform (findPreamble World.host invocation.preamble output)
      ((World.host.makeDirectories output).run world).2).1 = .ok preamble)
    (distinct : ((correct root).1.keys.map Markdown.pageName).Nodup)
    (writable : ∀ space ∈ (correct root).1.keys, ∃ place,
      ((World.host.makeDirectories output).run world).2.files.target? (pageFile output space) =
        some place) :
    ((run World.host arguments).run world).1 = .done ∧
      FileSystem.Wrote ((World.host.makeDirectories output).run world).2.files
        ((Markdown.pages options (correct root).1).entries.map (pageWrite output preamble))
        ((run World.host arguments).run world).2.files := by
  have files : (World.perform (gather World.host invocation output) world).2.files =
      ((World.host.makeDirectories output).run world).2.files := by
    rw [perform_gather, if_pos made]
    exact (gatherInputs_asks _ _ _).1
  have material : (World.perform (gather World.host invocation output) world).1 =
      .ok ⟨preamble, (correct root).1⟩ := by
    rw [perform_gather_single output input supported stored, if_pos made, found, parsed]
    rfl
  rw [request.run_eq, known]
  cases gathered : World.perform (gather World.host invocation output) world with
  | mk result prepared =>
    rw [gathered] at files material
    obtain rfl : result = .ok ⟨preamble, (correct root).1⟩ := material
    obtain ⟨done, left, written⟩ := writePages_written output preamble []
      (Markdown.pages options (correct root).1).entries prepared
    have keys := Markdown.keys_pages options (correct root).1
    rw [← keys, Dict.keys, List.map_map] at distinct
    have ok := written.ok_of_writable distinct fun page listed => by
      rw [files]
      exact writable page.1 (keys ▸ List.mem_map_of_mem listed)
    rw [ok] at written
    obtain rfl := written.eq_of_ok
    rw [← files]
    exact ⟨Ending.of_eq_done_iff.2 ok, written.wrote⟩

/-- What the file of a page holds: the page, behind the preamble, if there is one, with the name of
the page in all places for it. -/
def HoldsPage (preamble : Option Text) (name page content : Text) : Prop :=
  match preamble with
  | none => content = page
  | some template => ∃ filled, Text.Replaced "$\x7bname\x7d".toList name template filled ∧
      content = filled ++ '\n' :: page

/-- Namespaces other than the one without a name and the one that is named like its page have
distinct page names. -/
theorem nodup_pageNames (namespaces : Namespaces)
    (distinguished : ¬ ([] ∈ namespaces.keys ∧ "_global".toList ∈ namespaces.keys)) :
    (namespaces.keys.map Markdown.pageName).Nodup := by
  refine List.Nodup.map_on (fun first early second late same => ?_) namespaces.nodup_keys
  rw [Markdown.pageName, Markdown.pageName] at same
  split at same
  · rename_i empty
    split at same
    · rename_i also
      rw [empty, also]
    · exact absurd ⟨empty ▸ early, same ▸ late⟩ distinguished
  · split at same
    · rename_i empty
      exact absurd ⟨empty ▸ late, same ▸ early⟩ distinguished
    · exact same

/-- A page behind its filled preamble is what its file is to hold. -/
theorem holdsPage_filled (preamble : Option Text) (name page : Text) :
    HoldsPage preamble name page (filled preamble name page) := by
  cases preamble with
  | none => rfl
  | some template => exact ⟨_, (Text.replaced_iff (by decide)).2 rfl, rfl⟩

/-- A document in a single file makes the same pages as on the standard input. If it is not
well-formed, both runs fail and no file changes. Otherwise, when the pages of its namespaces have
distinct names without slashes and everything that the run asks for can be written, there is one
file for each namespace and no other change, and what is printed are the pages in these files, one
after the other and without their preambles. -/
theorem file_agrees_with_stream {streamArguments fileArguments : List Text}
    {streaming filing : Invocation} {options : Options} {output path : Path} {source : Text}
    {before world : World} (read : Invocation.read streamArguments = .ok streaming)
    (noInputs : streaming.inputs = []) (known : streaming.options = .ok options)
    (request : FileRequest fileArguments filing output) (input : filing.inputs = [path])
    (newline : filing.newline = streaming.newline)
    (index : filing.withIndex = streaming.withIndex) (piped : before.input = .text source)
    (supported : isSupported path)
    (stored : world.files.contents? path = some (.text source)) :
    let stream := (run World.host streamArguments).run before
    let file := (run World.host fileArguments).run world
    let made := (World.host.makeDirectories output).run world
    let place (space : Text) := world.files.placeOf (pageFile output space)
    (stream.1 = .failed .malformedInput →
      file.1.code = 1 ∧ ∀ place, ¬ FileChanged world.files file.2.files place) ∧
    (stream.1 ≠ .failed .malformedInput → stream.1 = .done ∧
      ∃ root, Xml.read source = some root ∧
      let spaces := (correct root).1.keys
      let pages := Markdown.pages options (correct root).1
      stream.2.output = before.output ++ pages.values.flatten ∧
      ∀ preamble, made.1 = true →
        (World.perform (findPreamble World.host filing.preamble output) made.2).1 =
          .ok preamble →
        (∀ space ∈ spaces, '/' ∉ space) → ¬ ([] ∈ spaces ∧ "_global".toList ∈ spaces) →
        (∀ space ∈ spaces, ∀ text,
          (made.2.files.write (pageFile output space) text).1 = true) →
        file.1 = .done ∧ (spaces.map place).Nodup ∧
        (∀ changed, FileChanged world.files file.2.files changed →
          ∃ space ∈ spaces, changed = place space) ∧
        ∀ space ∈ spaces, ∃ page content, pages.get? space = some page ∧
          file.2.files.contents? (pageFile output space) = some (.text content) ∧
          HoldsPage preamble (Markdown.pageName space) page content) := by
  intro stream file made place
  have same : filing.options = .ok options := by
    rw [← known, Invocation.options, Invocation.options, newline, index]
  have streamed := run_stream read noInputs known piped
  cases parsed : Xml.read source with
  | none =>
    simp only [parsed] at streamed
    refine ⟨fun _ => request.run_malformed input supported stored parsed, fun other => ?_⟩
    exact absurd (congrArg Prod.fst streamed) other
  | some root =>
    simp only [parsed] at streamed
    obtain ⟨ending, printed⟩ := streamed
    refine ⟨fun failed => ?_, fun _ => ⟨ending, root, rfl, printed, ?_⟩⟩
    · rw [show stream.1 = .done from ending] at failed
      cases failed
    intro preamble opened found slashless distinguished writable
    have named := request.output_ne_nil
    have distinct := nodup_pageNames _ distinguished
    have places := nodup_places made.2.files named distinct slashless
    obtain ⟨finished, wrote⟩ := request.run_single same input supported stored parsed opened found
      distinct fun space listed => FileSystem.exists_target?_of_write (writable space listed [])
    have keys := Markdown.keys_pages options (correct root).1
    have keeps := keepsPages_of_nodup wrote (keys ▸ places)
    refine ⟨finished, nodup_places world.files named distinct slashless, fun changed differs => ?_,
      fun space listed => ?_⟩
    · obtain ⟨-, material, prepared, gathered, listed⟩ := request.of_fileChanged differs
      have result := perform_gather_single output input supported stored
      rw [if_pos opened, found, parsed, gathered] at result
      obtain rfl := Except.ok.inj result
      exact listed
    · rw [← keys] at listed
      obtain ⟨page, own⟩ := Option.isSome_iff_exists.1 (Dict.mem_keys_iff.1 listed)
      exact ⟨page, _, own, keeps space page own, holdsPage_filled preamble _ page⟩

set_option maxRecDepth 100000 in
/-- A document with two namespaces, and a preamble that asks twice for a name. The namespace without
a name comes last in the document, and its page is printed first. -/
theorem file_agrees_with_stream_of_two :
    let document := "<doc><members><member name=\"T:Shapes.Circle\"/>" ++
      "<member name=\"T:Red\"/></members></doc>"
    let template := "$\x7bname\x7d: $\x7bname\x7d"
    let world := World.ofFiles [("a.xml", document), ("t.md", template)] document
    let output := "out".toList
    let path := "a.xml".toList
    let streaming : Invocation := {}
    let filing : Invocation :=
      { inputs := [path], output := some output, preamble := some "t.md".toList }
    let arguments := ["-o".toList, output, "-p".toList, "t.md".toList, path]
    let stream := (run World.host []).run world
    let file := (run World.host arguments).run world
    let unnamed := "---\n#### Type: <a name=\".red\"></a>Red\n\n\n\n".toList
    let shapes := "---\n#### Type: <a name=\"shapes.circle\"></a>Circle\n\n\n\n".toList
    Invocation.read [] = .ok streaming ∧ FileRequest arguments filing output ∧
    stream.1 = .done ∧ file.1 = .done ∧ stream.2.output = unnamed ++ shapes ∧
    (∀ changed, FileChanged world.files file.2.files changed →
      changed = ["w".toList, "out".toList, "_global.md".toList] ∨
        changed = ["w".toList, "out".toList, "Shapes.md".toList]) ∧
    (∃ content, file.2.files.contents? "out/_global.md".toList = some (.text content) ∧
      HoldsPage (some template.toList) "_global".toList unnamed content) ∧
    ∃ content, file.2.files.contents? "out/Shapes.md".toList = some (.text content) ∧
      HoldsPage (some template.toList) "Shapes".toList shapes content := by
  intro document template world output path streaming filing arguments stream file unnamed shapes
  have read : Invocation.read [] = .ok streaming := rfl
  have request : FileRequest arguments filing output := ⟨by decide +kernel, by decide, rfl⟩
  have supported : isSupported path := by decide +kernel
  have stored : world.files.contents? path = some (.text document.toList) := by decide +kernel
  have known : streaming.options = .ok {} := rfl
  have piped : world.input = .text document.toList := rfl
  obtain ⟨-, otherwise⟩ := file_agrees_with_stream read rfl known request rfl rfl rfl piped
    supported stored
  have streamed : stream.1 = .done := by decide +kernel
  obtain ⟨-, root, parsed, printed, files⟩ := otherwise (by rw [streamed]; nofun)
  have made : (Xml.read document.toList).map (fun root =>
      (Markdown.pages {} (correct root).1).entries) =
        some [([], unnamed), ("Shapes".toList, shapes)] := by decide +kernel
  rw [parsed] at made
  have entries : (Markdown.pages {} (correct root).1).entries =
      [([], unnamed), ("Shapes".toList, shapes)] := Option.some.inj made
  have spaces : (correct root).1.keys = [[], "Shapes".toList] := by
    rw [← Markdown.keys_pages {}, Dict.keys, entries]
    rfl
  rw [spaces] at files
  have targets : ∀ space ∈ [[], "Shapes".toList],
      (((World.host.makeDirectories output).run world).2.files.target?
        (pageFile output space)).isSome := by decide +kernel
  have writable : ∀ space ∈ [[], "Shapes".toList], ∀ text, (FileSystem.write
      ((World.host.makeDirectories output).run world).2.files (pageFile output space) text).1 =
        true := by
    intro space listed text
    obtain ⟨place, target⟩ := Option.isSome_iff_exists.1 (targets space listed)
    rw [FileSystem.write_eq, target]
  obtain ⟨finished, -, changes, holds⟩ := files (some template.toList) (by decide +kernel)
    (by decide +kernel) (by decide) (by decide) writable
  have kept : ∀ space ∈ [[], "Shapes".toList], ∀ page,
      (Markdown.pages {} (correct root).1).get? space = some page →
        ∃ content, file.2.files.contents? (pageFile output space) = some (.text content) ∧
          HoldsPage (some template.toList) (Markdown.pageName space) page content := by
    intro space listed page found
    obtain ⟨own, content, same, written, held⟩ := holds space listed
    obtain rfl : own = page := Option.some.inj (same.symm.trans found)
    exact ⟨content, written, held⟩
  refine ⟨read, request, streamed, finished, ?_, fun changed differs => ?_,
    kept [] (by decide) unnamed ?_, kept "Shapes".toList (by decide) shapes ?_⟩
  · rw [printed, Dict.values, entries]
    rfl
  · obtain ⟨space, listed, rfl⟩ := changes changed differs
    have places : ∀ space ∈ [[], "Shapes".toList],
        world.files.placeOf (pageFile output space) =
            ["w".toList, "out".toList, "_global.md".toList] ∨
          world.files.placeOf (pageFile output space) =
            ["w".toList, "out".toList, "Shapes.md".toList] := by decide +kernel
    exact places space listed
  all_goals
    rw [Dict.get?, entries]
    rfl

end ApiPages
