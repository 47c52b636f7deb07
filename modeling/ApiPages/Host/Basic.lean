import ApiPages.Event
import ApiPages.Path

/-!
# Hosts

A program asks its host for everything outside itself: its input, its output, its log and its files.
The host answers in some monad, so that the same program runs on a real file system and on one in
memory.
-/
namespace ApiPages

/-- What a file or a stream holds. -/
inductive Contents where
  /-- A text. -/
  | text (text : Text)
  /-- Bytes that are not the UTF-8 form of a text. -/
  | binary (bytes : List UInt8)
deriving DecidableEq

namespace Contents

/-- The contents with given bytes. -/
def ofBytes (bytes : ByteArray) : Contents :=
  match String.fromUTF8? bytes with
  | some string => text string.toList
  | none => binary bytes.toList

/-- The text, if there is one. -/
def text? : Contents → Option Text
  | text own => some own
  | binary _ => none

end Contents

/-- What stands at a path. -/
inductive Kind where
  /-- A regular file. -/
  | file
  /-- A directory. -/
  | directory
deriving DecidableEq

/-- What became of the request to make a directory. -/
inductive Making where
  /-- The directory has been made. -/
  | made
  /-- A directory on the way to it does not exist. -/
  | noParent
  /-- It could not be made for another reason. -/
  | refused
deriving DecidableEq

/-- The services of a host. -/
structure Host (m : Type → Type) where
  /-- All of the standard input. -/
  input : m Contents
  /-- Writes to the standard output. -/
  print : Text → m Unit
  /-- Writes an event to the log. -/
  report : Event → m Unit
  /-- What stands at a path, if anything does. -/
  kind? : Path → m (Option Kind)
  /-- What the file at a path holds, if it can be read. -/
  contents? : Path → m (Option Contents)
  /-- The names in the directory at a path, if it can be read. -/
  entries? : Path → m (Option (List Text))
  /-- Makes the directory at a path; the one that holds it must exist. -/
  makeDirectory : Path → m Making
  /-- Makes or overwrites the file at a path and says whether that worked. -/
  write : Path → Text → m Bool

namespace Host

variable {m : Type → Type} [Monad m]

/-- Whether a file stands at a path. -/
def isFile (host : Host m) (path : Path) : m Bool := do pure ((← host.kind? path) == some .file)

/-- Whether a directory stands at a path. -/
def isDirectory (host : Host m) (path : Path) : m Bool := do
  pure ((← host.kind? path) == some .directory)

/-- The text of the file at a path, if it can be read and is one. -/
def readText? (host : Host m) (path : Path) : m (Option Text) := do
  pure ((← host.contents? path).bind Contents.text?)

/-- Reports the events that are shown at a level. -/
def reportAll (host : Host m) (threshold : Level) (events : List Event) : m Unit :=
  (events.filter (·.shownAt threshold)).forM host.report

/-- Makes the first of a list of directories, each of which is inside the next one. -/
def makeInside (host : Host m) : List Path → m Bool
  | [] => pure false
  | [] :: _ => pure true
  | path :: outer => do
    match ← host.makeDirectory path with
    | .made => pure true
    | .refused => host.isDirectory path
    | .noParent =>
      if ← host.makeInside outer then
        match ← host.makeDirectory path with
        | .made => pure true
        | .refused | .noParent => host.isDirectory path
      else pure false

/-- Makes a directory together with those on the way to it, and says whether it exists then. -/
def makeDirectories (host : Host m) (path : Path) : m Bool := host.makeInside path.ancestors

end Host
end ApiPages
