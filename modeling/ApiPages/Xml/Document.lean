import ApiPages.Xml.Prolog
import ApiPages.Xml.Scope

/-!
# Reading documents

A document is what precedes the root, the root itself, and nothing after it but white space,
comments and processing instructions. Reading gives the root, or nothing when the text is not a
document that can be read. Where the root ends is decided twice: the text is cut behind the tag that
closes the root as it is written, while the root of the tree ends where the resolved tags close it.
-/
namespace ApiPages.Xml

/-- The first element of a row. -/
def first? : Content → Option Element
  | .nil => none
  | .text _ rest => first? rest
  | .element name attributes content _ => some ⟨name, attributes, content⟩

/-- Reads a document and gives its root. -/
def read (text : Text) : Option Element := do
  let (entities, rest) ← Prolog.read text
  let (lexemes, rest) ← Lexeme.takeRoot rest
  let rest ← Prolog.skipGaps rest
  if rest = [] then
    let markup ← Markup.nest? (← expand entities lexemes)
    first? (← resolve markup)
  else none

end ApiPages.Xml
