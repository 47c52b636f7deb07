import ApiPages.CommandLine.Run

/-!
# The program

The command line runs on the real file system. Names are turned into strings on the way out, and
what the system refuses is answered as the host's services say.
-/
namespace ApiPages

/-- The string of a text. -/
def text (characters : Text) : String := String.ofList characters

/-- What an action gives, or nothing if the system refuses it. -/
def allowed {α : Type} (action : IO α) : IO (Option α) := do
  try pure (some (← action))
  catch _ => pure none

/-- The kind of what a path leads to on the real file system. -/
def realKind (path : Path) : IO (Option Kind) := do
  if path.isEmpty then pure none
  else
    let location := (← IO.currentDir) / text path
    match ← allowed location.metadata with
    | none => pure none
    | some metadata => pure (some (if metadata.type == .dir then .directory else .file))

/-- The names in a real directory. -/
def realEntries (path : Path) : IO (Option (List Text)) := do
  let location := (← IO.currentDir) / text path
  pure ((← allowed location.readDir).map fun entries =>
    entries.toList.map fun entry => entry.fileName.toList)

/-- Makes a real directory. -/
def makeReal (path : Path) : IO Making := do
  try
    IO.FS.createDir (text path)
    pure .made
  catch
    | .noFileOrDirectory .. => pure .noParent
    | _ => pure .refused

/-- The host of a program on the real system. -/
def realHost : Host IO where
  input := do pure (.ofBytes (← (← IO.getStdin).readBinToEnd))
  print characters := do (← IO.getStdout).putStr (text characters)
  report event := do (← IO.getStderr).putStrLn (text event.shownLine)
  kind? := realKind
  contents? path := do pure ((← allowed (IO.FS.readBinFile (text path))).map .ofBytes)
  entries? := realEntries
  makeDirectory := makeReal
  write path content := do
    pure (← allowed (IO.FS.writeFile (text path) (text content))).isSome

/-- How the program is called. -/
def usage : String :=
  "Usage: apipages [OPTIONS] [FILES]...\n\n" ++
  "Generate per-namespace markdown from XML API documentation\n\n" ++
  "  -o, --output <OUTPUT>    Output directory (required when files are given)\n" ++
  "  -p, --prefix <PREFIX>    Prefix template file or directory containing _prefix.md\n" ++
  "      --newline <NEWLINE>  Line separator: native (default), lf, crlf\n" ++
  "      --toc                Prepend a member index to each namespace document\n" ++
  "  -v, --verbose...         Increase log verbosity (-v info, -vv debug)\n" ++
  "  -h, --help               Print help"

/-- Shows how a run ended. -/
def showEnding : Ending → IO Unit
  | .done => pure ()
  | .refused .help => IO.println usage
  | .refused .misuse => IO.eprintln usage
  | .failed failure => do
    match failure.chain with
    | [] => pure ()
    | message :: causes =>
      IO.eprintln ("Error: " ++ text message)
      for cause in causes do IO.eprintln ("Caused by: " ++ text cause)

end ApiPages

/-- Runs the program with the arguments of the command line. -/
def main (arguments : List String) : IO UInt32 := do
  let ending ← ApiPages.run ApiPages.realHost (arguments.map String.toList)
  ApiPages.showEnding ending
  pure ending.code.toUInt32
