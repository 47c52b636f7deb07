import ApiPages.CommandLine.Inputs
import ApiPages.CommandLine.Output
import ApiPages.Proofs.Actions

/-!
# What only asks

Finding a preamble, finding the input files and reading them only ask: whatever the names, patterns
and files are, none of these steps changes a file.
-/
namespace ApiPages

/-- Asking for a file changes none. -/
theorem isFile_asks (path : Path) : asking.Holds (World.host.isFile path) := fun _ => rfl

/-- Asking for a directory changes no file. -/
theorem isDirectory_asks (path : Path) : asking.Holds (World.host.isDirectory path) := fun _ => rfl

/-- Reading a text changes no file. -/
theorem readText?_asks (path : Path) : asking.Holds (World.host.readText? path) := fun _ => rfl

/-- Reporting changes no file. -/
theorem reportAll_asks (threshold : Level) (events : List Event) :
    asking.Holds (World.host.reportAll threshold events) :=
  asking.forM (fun _ _ => rfl) _

namespace Glob

/-- Listing the names in a directory changes no file. -/
theorem namesIn_asks (directory : Path) : asking.Holds (namesIn World.host directory) :=
  fun _ => rfl

/-- A search from each value of a list changes no file if none of its searches does. -/
theorem collect_asks {α β : Type} {search : α → StateM World (List β)}
    (each : ∀ value, asking.Holds (search value)) (list : List α) :
    asking.Holds (collect search list) :=
  asking.bind (asking.mapM each list) fun _ => asking.pure _

/-- Following pieces only asks if going deeper does. -/
theorem searchWith_asks {deeper : List Piece → Path → StateM World (List Path)}
    (further : ∀ pieces path, asking.Holds (deeper pieces path)) (pieces : List Piece)
    (path : Path) : asking.Holds (searchWith World.host deeper pieces path) := by
  induction pieces, path using searchWith.induct World.host deeper with
  | case1 path => exact asking.pure _
  | case2 signs rest path name found next special ih =>
    rw [searchWith]
    simp only [found, special, if_true]
    exact asking.bind (isDirectory_asks path) fun _ => asking.ite ih (asking.pure _)
  | case3 signs rest path name found next special ih =>
    rw [searchWith]
    simp only [found, special]
    exact asking.bind (fun _ => rfl) fun _ => asking.bind (asking.pure _) fun _ =>
      asking.ite ih (asking.pure _)
  | case4 signs rest path found below special =>
    rw [searchWith]
    simp only [found]
    refine asking.bind (namesIn_asks path) fun names => ?_
    refine asking.bind (collect_asks below _) fun matching => ?_
    refine asking.bind (isDirectory_asks path) fun opened => asking.ite ?_ ?_
    · exact asking.bind (collect_asks special _) fun _ => asking.pure _
    · exact asking.bind (asking.pure _) fun _ => asking.pure _
  | case5 rest path inner =>
    rw [searchWith]
    refine asking.bind (namesIn_asks path) fun names => collect_asks (fun name => ?_) names
    refine asking.bind (isDirectory_asks _) fun opened => ?_
    have joined : ∀ {own : StateM World (List Path)} (more : List Path), asking.Holds own →
        asking.Holds (own >>= fun own => pure (own ++ more)) := fun _ holds =>
      asking.bind holds fun _ => asking.pure _
    have silent : asking.Holds (pure [] : StateM World (List Path)) := asking.pure _
    have below := inner name
    -- What the piece after this one matches does not depend on how the deeper matches came about.
    refine asking.ite (asking.bind (further _ _) fun more => ?_) (asking.bind silent fun more => ?_)
    all_goals
      match rest, below with
      | [], below => exact asking.ite (joined more below) (joined more silent)
      | .name signs :: after, below => exact asking.ite (joined more below) (joined more silent)
      | .tree :: _, _ => exact joined more silent

/-- A search only asks, however deep it goes. -/
theorem searchTo_asks (depth : Nat) (pieces : List Piece) (path : Path) :
    asking.Holds (searchTo World.host depth pieces path) := by
  induction depth generalizing pieces path with
  | zero => exact asking.pure _
  | succ depth ih => exact searchWith_asks ih pieces path

/-- The search for the paths that a pattern matches changes no file. -/
theorem search_asks (pattern : Pattern) : asking.Holds (search World.host pattern) := by
  rw [search]
  exact asking.bind (searchTo_asks _ _ _) fun found =>
    asking.ite (asking.filterM isDirectory_asks found) (asking.pure _)

/-- The search for the files that a pattern matches changes no file. -/
theorem searchFiles_asks (pattern : Pattern) : asking.Holds (searchFiles World.host pattern) :=
  asking.bind (search_asks pattern) fun found => asking.filterM isFile_asks found

end Glob

/-- The search for the documentation files in a directory changes no file. -/
theorem filesInside_asks (directory : Path) :
    askingOrFailing.Holds (filesInside World.host directory) := by
  rw [filesInside]
  refine askingOrFailing.bind (askingOrFailing_lift fun _ => rfl) fun names => ?_
  cases names with
  | none => exact askingOrFailing_throw rfl
  | some names => exact askingOrFailing_lift (asking.filterM isFile_asks _)

/-- The search for the files that an input with marks matches changes no file. -/
theorem filesMatching_asks (threshold : Level) (text : Text) :
    askingOrFailing.Holds (filesMatching World.host threshold text) := by
  rw [filesMatching]
  cases Glob.Pattern.read text with
  | none => exact askingOrFailing_throw rfl
  | some pattern =>
    refine askingOrFailing.bind (askingOrFailing_lift (Glob.searchFiles_asks pattern))
      fun files => askingOrFailing.ite ?_ ?_
    · exact askingOrFailing.bind (askingOrFailing_lift (reportAll_asks threshold _)) fun _ =>
        askingOrFailing.pure _
    · exact askingOrFailing.pure files

/-- The search for the files of one input changes no file. -/
theorem filesOf_asks (threshold : Level) (name : Text) :
    askingOrFailing.Holds (filesOf World.host threshold name) := by
  rw [filesOf]
  refine askingOrFailing.bind (askingOrFailing_lift fun _ => rfl) fun kind => ?_
  rcases kind with _ | _ | _
  · exact filesMatching_asks threshold name
  · exact askingOrFailing.pure _
  · exact filesInside_asks name

/-- The search for the files of all inputs changes no file. -/
theorem inputFiles_asks (threshold : Level) (names : List Text) :
    askingOrFailing.Holds (inputFiles World.host threshold names) :=
  askingOrFailing.bind (askingOrFailing.mapM (filesOf_asks threshold) names) fun _ =>
    askingOrFailing.pure _

/-- Reading a documentation file changes no file. -/
theorem readInput_asks (threshold : Level) (path : Path) :
    askingOrFailing.Holds (readInput World.host threshold path) := by
  rw [readInput]
  refine askingOrFailing.bind (askingOrFailing_lift (readText?_asks path)) fun content => ?_
  cases content with
  | none => exact askingOrFailing_throw rfl
  | some content =>
    simp only
    cases readSource path content with
    | error error => exact askingOrFailing_throw rfl
    | ok root =>
      exact askingOrFailing.bind (askingOrFailing_lift (reportAll_asks threshold _)) fun _ =>
        askingOrFailing.pure _

/-- Reading a preamble changes no file. -/
theorem readPreamble_asks (path : Path) :
    askingOrFailing.Holds (readPreamble World.host path) := by
  rw [readPreamble]
  refine askingOrFailing.bind (askingOrFailing_lift (isFile_asks path)) fun present => ?_
  refine askingOrFailing.ite ?_ (askingOrFailing.pure _)
  refine askingOrFailing.bind (askingOrFailing_lift (readText?_asks path)) fun content => ?_
  cases content with
  | none => exact askingOrFailing_throw rfl
  | some text => exact askingOrFailing.pure _

/-- The search for a preamble changes no file. -/
theorem findPreamble_asks (asked : Option Path) (output : Path) :
    askingOrFailing.Holds (findPreamble World.host asked output) := by
  cases asked with
  | none => exact readPreamble_asks _
  | some path =>
    rw [findPreamble]
    refine askingOrFailing.bind (askingOrFailing_lift fun _ => rfl) fun kind => ?_
    rcases kind with _ | _ | _
    · exact askingOrFailing.bind (askingOrFailing_lift (isFile_asks _)) fun _ =>
        askingOrFailing.ite (readPreamble_asks _) (askingOrFailing_throw rfl)
    · exact readPreamble_asks _
    · exact readPreamble_asks _

end ApiPages
