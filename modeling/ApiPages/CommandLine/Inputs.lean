import ApiPages.CommandLine.Failure
import ApiPages.Correction
import ApiPages.Glob.Search

/-!
# Inputs

The name of an input is a file, a directory, which stands for the documentation files directly
inside it, or else a pattern. The inputs of a run are the files of all names, each once, in the
order of their paths. Every input is read, corrected and reported on before the next one.
-/
namespace ApiPages

variable {m : Type → Type} [Monad m]

/-- The documentation files directly inside a directory. -/
def filesInside (host : Host m) (directory : Path) : ExceptT Failure m (List Path) := do
  match ← host.entries? directory with
  | some names =>
    liftM (((names.map directory.join).filter isSupported).filterM host.isFile)
  | none => throw (.directoryUnreadable directory)

/-- The files that match a pattern; a pattern that matches none is reported. -/
def filesMatching (host : Host m) (threshold : Level) (text : Text) :
    ExceptT Failure m (List Path) := do
  match Glob.Pattern.read text with
  | some pattern =>
    let files : List Path ← liftM (Glob.searchFiles host pattern)
    if files.isEmpty then host.reportAll threshold [.nothingMatched text]
    pure files
  | none => throw (.invalidPattern text)

/-- The files of the name of an input. -/
def filesOf (host : Host m) (threshold : Level) (name : Text) :
    ExceptT Failure m (List Path) := do
  match ← host.kind? name with
  | some .file => pure [name]
  | some .directory => filesInside host name
  | none => filesMatching host threshold name

/-- The files of all names, each once, in the order of their paths. -/
def inputFiles (host : Host m) (threshold : Level) (names : List Text) :
    ExceptT Failure m (List Path) := do
  let files ← names.mapM (filesOf host threshold)
  pure (Path.sortUnique files.flatten)

/-- Reads and corrects an input. -/
def readInput (host : Host m) (threshold : Level) (path : Path) :
    ExceptT Failure m (Text × Namespaces) := do
  match ← host.readText? path with
  | none => throw (.unreadable path)
  | some content =>
    match readSource path content with
    | .error error => throw (.unparsable path error)
    | .ok root =>
      let (namespaces, events) := correct root
      host.reportAll threshold events
      pure (path, namespaces)

end ApiPages
