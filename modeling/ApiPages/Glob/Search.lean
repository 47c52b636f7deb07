import ApiPages.Glob.Pattern
import ApiPages.Host.Basic

/-!
# Searching for the matches of a pattern

A search follows a pattern piece by piece from a directory. A piece without signs is looked up by
its name, so it may also lead to the directory itself or to the one above; any other piece is
compared with the names in the directory. A piece for any number of directories lets the next piece
match at every depth, and at the end of a pattern it matches the directories below.
-/
namespace ApiPages.Glob

variable {m : Type → Type} [Monad m]

/-- The working directory, at which a search for a relative pattern starts. -/
def workingDirectory : Path := ['.']

/-- The path of an entry of a directory; entries of the working directory go by their names. -/
def inside (directory : Path) (name : Text) : Path :=
  if directory.same workingDirectory then name else directory.join name

/-- Whether a name stands for a directory itself or for the one above it. -/
def isSpecial (name : Text) : Bool := name = ['.'] || name = ['.', '.']

/-- The special names that signs match; they must begin with a dot. -/
def specialNames (signs : List Sign) : List Text :=
  if signs.head? = some (.exactly '.') then
    [['.'], ['.', '.']].filter (matchesName signs)
  else []

/-- The names in a directory, none if it cannot be read. -/
def namesIn (host : Host m) (directory : Path) : m (List Text) := do
  pure ((← host.entries? directory).getD [])

/-- Collects the results for every member of a list. -/
def collect {α β : Type} (search : α → m (List β)) (list : List α) : m (List β) := do
  pure (← list.mapM search).flatten

/-- The paths to which pieces lead from a path. Pieces are followed into deeper directories of a
tree by `deeper`. -/
def searchWith (host : Host m) (deeper : List Piece → Path → m (List Path)) :
    List Piece → Path → m (List Path)
  | [], path => pure [path]
  | .name signs :: rest, path => do
    match literal? signs with
    | some name =>
      let next := inside path name
      let found ←
        if isSpecial name then host.isDirectory path
        else do pure (← host.kind? next).isSome
      if found then searchWith host deeper rest next else pure []
    | none =>
      let names := (← namesIn host path).filter (matchesName signs)
      let below ← collect (fun name => searchWith host deeper rest (inside path name)) names
      let special ←
        if ← host.isDirectory path then
          collect (fun name => searchWith host deeper rest (path.join name)) (specialNames signs)
        else pure []
      pure (below ++ special)
  | .tree :: rest, path => do
    collect (fun name => do
      let child := inside path name
      let isDirectory ← host.isDirectory child
      let further ← if isDirectory then deeper (.tree :: rest) child else pure []
      let own ←
        match rest with
        | [] => if isDirectory then searchWith host deeper [] child else pure []
        | .name signs :: after =>
          if matchesName signs name then searchWith host deeper after child else pure []
        | .tree :: _ => pure []
      pure (own ++ further)) (← namesIn host path)

/-- The depth below which no directory is looked for: a path cannot be longer than 4096 bytes, and
every directory on it takes two. -/
def maxDepth : Nat := 2048

/-- The paths to which pieces lead from a path, down to a number of directories below it. -/
def searchTo (host : Host m) : Nat → List Piece → Path → m (List Path)
  | 0, _, _ => pure []
  | depth + 1, pieces, path => searchWith host (searchTo host depth) pieces path

/-- The paths that match a pattern. -/
def search (host : Host m) (pattern : Pattern) : m (List Path) := do
  let start := if pattern.root = [] then workingDirectory else pattern.root
  let found ← searchTo host maxDepth pattern.pieces start
  if pattern.directoriesOnly then found.filterM host.isDirectory else pure found

/-- The files that match a pattern. -/
def searchFiles (host : Host m) (pattern : Pattern) : m (List Path) := do
  (← search host pattern).filterM host.isFile

end ApiPages.Glob
