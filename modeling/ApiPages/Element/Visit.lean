import ApiPages.Element.Basic

/-!
# Visiting descendants

A visit hands every element of one name below a root to a visitor, in document order, and lets it
change the element and a state of its own. The visitor acts before the visit goes on to what the
element then holds; whether it is called is decided by the name that the element had.
-/
namespace ApiPages

/-- What a visitor makes of an element: a name, attributes, and content that keeps or loses what
the element held and may end in new text nodes. -/
structure Edit where
  /-- The name from now on. -/
  name : Text
  /-- The attributes from now on. -/
  attributes : Dict Text
  /-- Whether the element keeps what it held. -/
  keepsContent : Bool := true
  /-- Text nodes put at the end. -/
  addedTexts : List Text := []

/-- The edit that leaves an element as it is. -/
def Edit.none (element : Element) : Edit := ⟨element.name, element.attributes, true, []⟩

namespace Content

/-- Visits the elements of one name in a row and below it, passing a state along. -/
def visit {σ : Type} (name : Text) (visitor : σ → Element → σ × Edit) :
    σ → Content → σ × Content
  | state, nil => (state, nil)
  | state, text own rest =>
    let (state, rest) := visit name visitor state rest
    (state, text own rest)
  | state, element found attributes content rest =>
    let (state, edit) :=
      if found = name then visitor state ⟨found, attributes, content⟩
      else (state, .none ⟨found, attributes, content⟩)
    let (state, content) :=
      if edit.keepsContent then visit name visitor state content else (state, nil)
    let (state, rest) := visit name visitor state rest
    (state, element edit.name edit.attributes
      (content.append (ofNodes (edit.addedTexts.map .text))) rest)

end Content

namespace Element

/-- Visits the elements of one name below an element; the element itself is not visited. -/
def visitDescendants {σ : Type} (element : Element) (name : Text)
    (visitor : σ → Element → σ × Edit) (state : σ) : σ × Element :=
  let (state, content) := element.content.visit name visitor state
  (state, { element with content })

/-- Changes the attributes of the elements of one name below an element. -/
def mapAttributesBelow (element : Element) (name : Text) (change : Dict Text → Dict Text) :
    Element :=
  (element.visitDescendants name
    (fun state found => (state, { Edit.none found with attributes := change found.attributes }))
    ()).2

end Element
end ApiPages
