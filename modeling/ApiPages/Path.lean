import ApiPages.Text.Basic

/-!
# Paths

A path is written with slashes between its components. Repeated slashes and single dots say nothing,
except a dot that begins a relative path. Two spellings are the same path when their components are
equal, and paths are ordered by their components: first the root, then a leading dot, then the way
up, then names by code points. A path is never resolved here, so `a/../b` and `b` are different.
-/
namespace ApiPages

/-- A path as it is written. -/
abbrev Path := Text

/-- A step of a path. -/
inductive Component where
  /-- The root, at the start of an absolute path. -/
  | root
  /-- The working directory, as a leading dot. -/
  | here
  /-- The directory above. -/
  | up
  /-- The entry of a name. -/
  | entry (name : Text)
deriving DecidableEq

namespace Component

/-- A text whose order among such texts is the order of the components. -/
def sortKey : Component → Text
  | root => [Char.ofNat 0]
  | here => [Char.ofNat 1]
  | up => [Char.ofNat 2]
  | entry name => Char.ofNat 3 :: name

/-- The component of a piece between slashes; an empty piece and a dot have none. -/
def ofPiece? (piece : Text) : Option Component :=
  if piece = [] ∨ piece = ['.'] then none
  else if piece = ['.', '.'] then some up
  else some (entry piece)

end Component

namespace Path

/-- A path split into what stands before its pieces, a root or a leading dot, and the pieces. -/
def split (path : Path) : Text × List Text :=
  match path.splitOn '/' with
  | [] :: piece :: pieces => (['/'], piece :: pieces)
  | ['.'] :: pieces => (['.'], if pieces = [] then [] else [] :: pieces)
  | pieces => ([], pieces)

/-- The component of what stands before the pieces. -/
def startComponent (start : Text) : List Component :=
  if start = ['/'] then [.root] else if start = ['.'] then [.here] else []

/-- The components of a path. -/
def components (path : Path) : List Component :=
  startComponent path.split.1 ++ path.split.2.filterMap Component.ofPiece?

/-- Whether two spellings are the same path. -/
def same (first second : Path) : Bool := first.components = second.components

/-- Whether a path starts at the root. -/
def isAbsolute (path : Path) : Bool := path.head? = some '/'

/-- The key by which paths are ordered. -/
def sortKey (path : Path) : List Text := path.components.map Component.sortKey

/-- Whether one path does not come after another. -/
def precedes (first second : Path) : Bool := ¬ second.sortKey < first.sortKey

/-- Keeps the first of neighbouring paths that are the same. -/
def dropRepeats : List Path → List Path
  | [] => []
  | path :: rest =>
    match dropRepeats rest with
    | [] => [path]
    | next :: others => if path.same next then path :: others else path :: next :: others

/-- Sorts paths and leaves every path once; of several spellings the first one stays. -/
def sortUnique (paths : List Path) : List Path := dropRepeats (paths.mergeSort precedes)

/-- The name of the entry that a path ends in. -/
def fileName? (path : Path) : Option Text :=
  match path.components.getLast? with
  | some (.entry name) => some name
  | _ => none

/-- The part of a name after its last dot, unless the dot begins the name. -/
def extensionOf? (name : Text) : Option Text :=
  match name.reverse.dropWhile (· ≠ '.') with
  | [] | [_] => none
  | _ :: _ :: _ => some (name.afterLast '.')

/-- The extension of the entry that a path ends in. -/
def extension? (path : Path) : Option Text := path.fileName?.bind extensionOf?

/-- Pieces without those at the end that have no component. -/
def trimPieces (pieces : List Text) : List Text :=
  (pieces.reverse.dropWhile fun piece => (Component.ofPiece? piece).isNone).reverse

/-- The path without its last component. The root has no parent, nor has the empty path. -/
def parent? (path : Path) : Option Path :=
  let (start, pieces) := path.split
  match (trimPieces pieces).reverse with
  | _ :: outer => some (start ++ Text.joinWith ['/'] (trimPieces outer.reverse))
  | [] => if start = ['.'] then some [] else none

/-- A path inside another one; an absolute path stands by itself. -/
def join (outer inner : Path) : Path :=
  if inner.isAbsolute then inner
  else if outer = [] ∨ outer.getLast? = some '/' then outer ++ inner
  else outer ++ '/' :: inner

/-- The path of another entry in the directory of a path. A path that does not end in an entry is
that directory itself. -/
def withFileName (path : Path) (name : Text) : Path :=
  match path.fileName? with
  | some _ => (path.parent?.getD path).join name
  | none => path.join name

/-- A path, its parent, the parent of that, and so on. -/
def ancestors (path : Path) : List Path :=
  match path.parent? with
  | none => [path]
  | some parent => path :: if parent.length < path.length then ancestors parent else []
termination_by path.length

end Path
end ApiPages
