import ApiPages.Xml.Expansion

/-!
# Markup trees

Resolved lexemes nest into a tree when every closing tag meets the opening tag of the same qualified
name. The tree is a row of texts, gaps and elements, and it is read from the last lexeme to the
first: a closing tag begins the row of an element, and the opening tag puts that row into its place.
An opening tag that was cut off leaves a gap, and the next tag takes over its attributes. If that is
a closing tag, they belong to no element but stay in the tree, because they must still be ones that
an element could have there.
-/
namespace ApiPages.Xml

/-- A row of texts, gaps, elements, and attributes that belong to no element. -/
inductive Markup where
  /-- The end of the row. -/
  | nil
  /-- A text and the rest of the row. -/
  | text (text : Text) (rest : Markup)
  /-- A gap and the rest of the row. -/
  | gap (rest : Markup)
  /-- Attributes that belong to no element, and the rest of the row. -/
  | stray (attributes : List (QualifiedName × Text)) (rest : Markup)
  /-- An element with its own row, and the rest of the row. -/
  | element (name : QualifiedName) (attributes : List (QualifiedName × Text))
    (content rest : Markup)
deriving DecidableEq

namespace Markup

/-- The state of nesting from the end of a document: the row under way, and for each element that is
still to be opened the name on its closing tag and the row after it. -/
structure Nesting where
  /-- The row under way. -/
  row : Markup
  /-- The elements around it, the innermost first. -/
  around : List (QualifiedName × Markup)

namespace Nesting

/-- Puts an element that its own tag closes in front of what has been nested. -/
def prependElement (nesting : Nesting) (name : QualifiedName)
    (attributes : List (QualifiedName × Text)) : Nesting :=
  { nesting with row := .element name attributes .nil nesting.row }

/-- Opens the innermost element that is still to be opened, if it has the given name. -/
def openElement (nesting : Nesting) (name : QualifiedName)
    (attributes : List (QualifiedName × Text)) : Option Nesting :=
  match nesting.around with
  | [] => none
  | (expected, following) :: around =>
    if name = expected then some ⟨.element name attributes nesting.row following, around⟩
    else none

/-- Begins the row of an element with the attributes that its closing tag takes over. -/
def closeElement (nesting : Nesting) (name : QualifiedName)
    (attributes : List (QualifiedName × Text)) : Nesting :=
  ⟨if attributes = [] then .nil else .stray attributes .nil, (name, nesting.row) :: nesting.around⟩

end Nesting

/-- Nests lexemes from the last to the first, where `left` are the attributes of tags that were cut
off before them. -/
def nestAll : (left : List (QualifiedName × Text)) → List PlainLexeme → Option Nesting
  | _, [] => some ⟨.nil, []⟩
  | left, .text own :: rest =>
    (nestAll left rest).map fun nesting => { nesting with row := .text own nesting.row }
  | left, .gap :: rest =>
    (nestAll left rest).map fun nesting => { nesting with row := .gap nesting.row }
  | left, .cutOff attributes :: rest =>
    (nestAll (left ++ attributes) rest).map fun nesting =>
      { nesting with row := .gap nesting.row }
  | left, .closing name :: rest => (nestAll [] rest).map (·.closeElement name left)
  | left, .opening name attributes true :: rest =>
    (nestAll [] rest).map (·.prependElement name (left ++ attributes))
  | left, .opening name attributes false :: rest =>
    (nestAll [] rest).bind (·.openElement name (left ++ attributes))

/-- The tree of lexemes whose tags all match. -/
def nest? (lexemes : List PlainLexeme) : Option Markup := do
  let nesting ← nestAll [] lexemes
  if nesting.around.isEmpty then some nesting.row else none

end Markup
end ApiPages.Xml
