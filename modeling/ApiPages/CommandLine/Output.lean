import ApiPages.CommandLine.Failure
import ApiPages.Host.Basic
import ApiPages.Markdown.Page

/-!
# Output

Every page is written into one directory, in the order of the namespaces. A preamble, if there is
one, goes before each page with the name of the page in the places that ask for it. Two namespaces
whose pages have the same name are an error, which is found when the second page is due; what has
been written by then stays.
-/
namespace ApiPages

variable {m : Type → Type} [Monad m]

/-- The name of a file that holds a preamble. -/
def preambleFile : Text := "_prefix.md".toList

/-- What stands in a preamble for the name of a page. -/
def namePlace : Text := "$\x7bname\x7d".toList

/-- The preamble in a file, if the file exists. -/
def readPreamble (host : Host m) (path : Path) : ExceptT Failure m (Option Text) := do
  if ← host.isFile path then
    match ← host.readText? path with
    | some text => pure (some text)
    | none => throw (.preambleUnreadable path)
  else pure none

/-- The preamble of a run. A path that is asked for leads to the file itself, to a directory that
may hold one, or to a place beside which there must be one; otherwise the directory of the pages
may hold one. -/
def findPreamble (host : Host m) (asked : Option Path) (output : Path) :
    ExceptT Failure m (Option Text) := do
  match asked with
  | none => readPreamble host (output.join preambleFile)
  | some path =>
    match ← host.kind? path with
    | some .file => readPreamble host path
    | some .directory => readPreamble host (path.join preambleFile)
    | none =>
      let beside := path.withFileName preambleFile
      if ← host.isFile beside then readPreamble host beside
      else throw (.preambleMissing path)

/-- What is written for a page: the preamble with the name filled in and a line feed, then the
page. -/
def filled (preamble : Option Text) (name page : Text) : Text :=
  match preamble with
  | some text => text.replaceAll namePlace name ++ '\n' :: page
  | none => page

/-- The path of the page of a name. -/
def pagePath (output : Path) (name : Text) : Path := output.join (name ++ ".md".toList)

/-- Writes pages in order, where `written` lists the names and namespaces of those before. -/
def writePages (host : Host m) (output : Path) (preamble : Option Text) :
    (written : List (Text × Text)) → List (Text × Text) → ExceptT Failure m Unit
  | _, [] => pure ()
  | written, (space, page) :: rest => do
    let name := Markdown.pageName space
    match written.find? (·.1 = name) with
    | some (_, previous) => throw (.clash previous space name)
    | none =>
      if ← host.write (pagePath output name) (filled preamble name page) then
        writePages host output preamble ((name, space) :: written) rest
      else throw (.unwritable (pagePath output name))

end ApiPages
