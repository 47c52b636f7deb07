import ApiPages.Path
import ApiPages.Xml.Document

/-!
# Documentation files

What a file holds is told from its extension. Only XML is read.
-/
namespace ApiPages

/-- Why the content of a file cannot be read. -/
inductive SourceError where
  /-- The extension of the path is not one of a documentation file. -/
  | unsupported (path : Path)
  /-- The content is not a well-formed document. -/
  | malformed
deriving DecidableEq

/-- The wording for content that is not a well-formed document. -/
def malformedMessage : Text := "failed to parse XML".toList

/-- The wording of an error about the content of a file. -/
def SourceError.message : SourceError → Text
  | unsupported path => "unsupported file type: ".toList ++ path
  | malformed => malformedMessage

/-- Whether a path has the extension of a documentation file. -/
def isSupported (path : Path) : Bool := path.extension? = some "xml".toList

/-- Reads the content of a file by its extension. -/
def readSource (path : Path) (content : Text) : Except SourceError Element :=
  if isSupported path then
    match Xml.read content with
    | some root => .ok root
    | none => .error .malformed
  else .error (.unsupported path)

end ApiPages
