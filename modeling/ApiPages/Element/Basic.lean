import ApiPages.Dict

/-!
# Element trees

The content of an element is a row of text nodes and elements. The row is one inductive type: a
node is followed by the rest of its row, and an element also holds the row of its own content.
Two text nodes may stand next to each other, and a text node may be empty.
-/
namespace ApiPages

/-- A row of nodes with everything below them. -/
inductive Content where
  /-- The end of the row. -/
  | nil
  /-- A text node and the rest of the row. -/
  | text (text : Text) (rest : Content)
  /-- An element with its name, its attributes and its own row, and the rest of the row. -/
  | element (name : Text) (attributes : Dict Text) (content rest : Content)
deriving DecidableEq

/-- A named element with its attributes and its content. -/
structure Element where
  /-- The name of the element. -/
  name : Text
  /-- The values of the attributes under their names. -/
  attributes : Dict Text := .empty
  /-- The row of its nodes. -/
  content : Content := .nil
deriving DecidableEq

/-- A node by itself. -/
inductive Node where
  /-- A text node. -/
  | text (text : Text)
  /-- An element with its content. -/
  | element (element : Element)
deriving DecidableEq

namespace Content

/-- The row of a list of nodes. -/
def ofNodes : List Node → Content
  | [] => nil
  | .text own :: rest => text own (ofNodes rest)
  | .element child :: rest => element child.name child.attributes child.content (ofNodes rest)

/-- One row after another. -/
def append : Content → Content → Content
  | nil, following => following
  | text own rest, following => text own (append rest following)
  | element name attributes content rest, following =>
    element name attributes content (append rest following)

/-- The elements of a row, in order. -/
def elements : Content → List Element
  | nil => []
  | text _ rest => elements rest
  | element name attributes content rest => ⟨name, attributes, content⟩ :: elements rest

/-- The text nodes of a row, joined. -/
def ownText : Content → Text
  | nil => []
  | text own rest => own ++ ownText rest
  | element _ _ _ rest => ownText rest

/-- All text in a row and below it, joined. -/
def deepText : Content → Text
  | nil => []
  | text own rest => own ++ deepText rest
  | element _ _ content rest => deepText content ++ deepText rest

/-- All elements in a row and below it; an element comes before those below it. -/
def descendants : Content → List Element
  | nil => []
  | text _ rest => descendants rest
  | element name attributes content rest =>
    ⟨name, attributes, content⟩ :: descendants content ++ descendants rest

end Content

namespace Element

/-- The value of an attribute. -/
def attribute? (element : Element) (name : Text) : Option Text := element.attributes.get? name

/-- Sets an attribute. -/
def setAttribute (element : Element) (name value : Text) : Element :=
  { element with attributes := element.attributes.insert name value }

/-- Adds a text node at the end. -/
def addText (element : Element) (text : Text) : Element :=
  { element with content := element.content.append (.text text .nil) }

/-- Adds an element at the end. -/
def addChild (element child : Element) : Element :=
  { element with content :=
      element.content.append (.element child.name child.attributes child.content .nil) }

/-- The elements directly inside an element. -/
def children (element : Element) : List Element := element.content.elements

/-- The elements of one name directly inside an element. -/
def childrenNamed (element : Element) (name : Text) : List Element :=
  element.children.filter (·.name = name)

/-- The text nodes directly inside an element, joined. -/
def ownText (element : Element) : Text := element.content.ownText

/-- All text inside an element at any depth, joined. -/
def deepText (element : Element) : Text := element.content.deepText

/-- The elements of one name inside an element at any depth, in document order. -/
def descendantsNamed (element : Element) (name : Text) : List Element :=
  element.content.descendants.filter (·.name = name)

end Element
end ApiPages
