import ApiPages.Markdown.Page
import ApiPages.Xml.Document

/-!
# Converting a documentation file

A documentation file is read as XML, its members are corrected and grouped, and every namespace
becomes a page.
-/
namespace ApiPages

/-- The pages of a documentation file with what was reported on the way, or nothing when the file is
not a well-formed document. -/
def convert (options : Options) (source : Text) : Option (Dict Text × List Event) :=
  (Xml.read source).map fun root =>
    let (namespaces, events) := correct root
    (Markdown.pages options namespaces, events)

end ApiPages
