import ApiPages.Host.Basic

/-!
# File systems in memory

A file system is a collection of files and directories at their places below the root, with a
working directory at which relative paths start. A path is followed one piece at a time: every piece
leads on from an existing directory, two dots lead to the directory above, and a slash at the end
asks for a directory. There are no links, so every entry has one place.
-/
namespace ApiPages

/-- The names that lead from the root to an entry. -/
abbrev Place := List Text

/-- What stands at a place. -/
inductive Entry where
  /-- A file with what it holds. -/
  | file (contents : Contents)
  /-- A directory. -/
  | directory
deriving DecidableEq

/-- The kind of an entry. -/
def Entry.kind : Entry → Kind
  | file _ => .file
  | directory => .directory

/-- A file system with a working directory. -/
structure FileSystem where
  /-- The entries with their places, without the root. -/
  entries : List (Place × Entry)
  /-- The place of the working directory. -/
  working : Place

namespace FileSystem

/-- What stands at a place; the root is always a directory. -/
def at? (system : FileSystem) (place : Place) : Option Entry :=
  if place = [] then some .directory
  else (system.entries.find? (·.1 = place)).map (·.2)

/-- Puts an entry at a place, over what stands there. -/
def put (system : FileSystem) (place : Place) (entry : Entry) : FileSystem :=
  { system with entries := (place, entry) :: system.entries.filter fun old => old.1 ≠ place }

/-- Where a path leads. -/
inductive Found where
  /-- To the entry at this place. -/
  | existing (place : Place) (entry : Entry)
  /-- To an entry that could be made at this place, in a directory that exists. -/
  | vacant (place : Place)
  /-- Through a directory that does not exist. -/
  | missing
  /-- Through a file, or past the limits on the sizes of names and paths. -/
  | blocked
deriving DecidableEq

/-- The most bytes that the name of an entry may have. -/
def maxNameSize : Nat := 255

/-- The most bytes that a path may have. -/
def maxPathSize : Nat := 4095

/-- The number of bytes of a name or a path. -/
def byteSize (text : Text) : Nat :=
  text.foldl (fun size character => size + character.utf8Size) 0

/-- Follows the pieces of a path from a place on. -/
def follow (system : FileSystem) : Place → List Text → Found
  | place, [] =>
    match system.at? place with
    | some entry => .existing place entry
    | none => .missing
  | place, piece :: rest =>
    if system.at? place ≠ some .directory then .blocked
    else if piece = ['.'] then follow system place rest
    else if piece = ['.', '.'] then follow system place.dropLast rest
    else if maxNameSize < byteSize piece then .blocked
    else
      let inner := place ++ [piece]
      match system.at? inner, rest with
      | some _, _ => follow system inner rest
      | none, [] => .vacant inner
      | none, _ :: _ => .missing

/-- Whether a path asks for a directory. -/
def asksDirectory (path : Path) : Bool := path.getLast? = some '/'

/-- Where a path leads. -/
def find (system : FileSystem) (path : Path) : Found :=
  if path = [] then .missing
  else if maxPathSize < byteSize path then .blocked
  else
    let start := if path.isAbsolute then [] else system.working
    match follow system start ((path.splitOn '/').filter (· ≠ [])) with
    | .existing place (.file contents) =>
      if asksDirectory path then .blocked else .existing place (.file contents)
    | found => found

/-- The kind of what a path leads to. -/
def kind? (system : FileSystem) (path : Path) : Option Kind :=
  match system.find path with
  | .existing _ entry => some entry.kind
  | _ => none

/-- What the file that a path leads to holds. -/
def contents? (system : FileSystem) (path : Path) : Option Contents :=
  match system.find path with
  | .existing _ (.file contents) => some contents
  | _ => none

/-- The names of the entries directly inside a place. -/
def namesIn (system : FileSystem) (place : Place) : List Text :=
  system.entries.filterMap fun (inner, _) =>
    match inner.getLast? with
    | some name => if inner.dropLast = place then some name else none
    | none => none

/-- The names in the directory that a path leads to. -/
def entries? (system : FileSystem) (path : Path) : Option (List Text) :=
  match system.find path with
  | .existing place .directory => some (system.namesIn place)
  | _ => none

/-- Makes the directory of a path. -/
def makeDirectory (system : FileSystem) (path : Path) : Making × FileSystem :=
  match system.find path with
  | .vacant place => (.made, system.put place .directory)
  | .missing => (.noParent, system)
  | .existing _ _ | .blocked => (.refused, system)

/-- Writes the file of a path. -/
def write (system : FileSystem) (path : Path) (text : Text) : Bool × FileSystem :=
  match system.find path with
  | .existing place (.file _) => (true, system.put place (.file (.text text)))
  | .vacant place =>
    if asksDirectory path then (false, system)
    else (true, system.put place (.file (.text text)))
  | .existing _ .directory | .missing | .blocked => (false, system)

end FileSystem

/-- Everything that a program can see or change, in memory. -/
structure World where
  /-- The files. -/
  files : FileSystem
  /-- The standard input. -/
  input : Contents
  /-- What has been written to the standard output. -/
  output : Text := []
  /-- The events that have been reported. -/
  log : List Event := []

/-- The host whose services act on a world in memory. -/
def World.host : Host (StateM World) where
  input := fun world => (world.input, world)
  print text := fun world => ((), { world with output := world.output ++ text })
  report event := fun world => ((), { world with log := world.log ++ [event] })
  kind? path := fun world => (world.files.kind? path, world)
  contents? path := fun world => (world.files.contents? path, world)
  entries? path := fun world => (world.files.entries? path, world)
  makeDirectory path := fun world =>
    let (making, files) := world.files.makeDirectory path
    (making, { world with files })
  write path text := fun world =>
    let (written, files) := world.files.write path text
    (written, { world with files })

end ApiPages
