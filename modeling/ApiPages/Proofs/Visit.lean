import ApiPages.Element.Visit
import ApiPages.Proofs.Place

/-!
# Visits that change attributes

A visit that only changes attributes acts on each element of its name by itself, wherever the
element stands. Every place of the tree keeps its node: texts and names stay as they were, and so do
the attributes of elements of other names.
-/
namespace ApiPages

namespace Content

/-- Changes the attributes of the elements of one name in a row and below it. -/
def mapAttributes (name : Text) (change : Dict Text → Dict Text) : Content → Content
  | nil => nil
  | text own rest => text own (rest.mapAttributes name change)
  | element found attributes content rest =>
    element found (if found = name then change attributes else attributes)
      (content.mapAttributes name change) (rest.mapAttributes name change)

/-- Nothing is added behind a row. -/
@[simp]
theorem append_nil (content : Content) : content.append nil = content := by
  induction content with
  | nil => rfl
  | text own rest ih => rw [append, ih]
  | element name attributes content rest _ ih => rw [append, ih]

/-- A visit whose visitor changes attributes only changes those of the elements it visits. -/
theorem visit_eq_mapAttributes (name : Text) (change : Dict Text → Dict Text)
    (content : Content) :
    content.visit name
        (fun state found => (state, { Edit.none found with attributes := change found.attributes }))
        () = ((), content.mapAttributes name change) := by
  induction content with
  | nil => rfl
  | text own rest ih => rw [visit, ih, mapAttributes]
  | element found attributes content rest inner outer =>
    simp only [Edit.none] at inner outer
    by_cases here : found = name <;>
      simp [visit, mapAttributes, here, Edit.none, inner, outer, ofNodes]

/-- All text below a row stays as it was. -/
@[simp]
theorem deepText_mapAttributes (name : Text) (change : Dict Text → Dict Text)
    (content : Content) : (content.mapAttributes name change).deepText = content.deepText := by
  induction content with
  | nil => rfl
  | text own rest ih => rw [mapAttributes, deepText, deepText, ih]
  | element found attributes content rest inner outer =>
    rw [mapAttributes, deepText, deepText, inner, outer]

end Content

/-- Changes the attributes of the elements of one name in a node and below it. -/
def Node.mapAttributes (name : Text) (change : Dict Text → Dict Text) : Node → Node
  | .text own => .text own
  | .element found =>
    .element ⟨found.name, if found.name = name then change found.attributes else found.attributes,
      found.content.mapAttributes name change⟩

/-- Every place of a row keeps its node up to attributes. -/
theorem Content.nodeAt?_mapAttributes (name : Text) (change : Dict Text → Dict Text)
    (content : Content) (place : List Nat) :
    (content.mapAttributes name change).nodeAt? place =
      (content.nodeAt? place).map (Node.mapAttributes name change) := by
  induction content generalizing place with
  | nil => cases place <;> rfl
  | text own rest ih =>
    match place with
    | [] | [0] | 0 :: _ :: _ => rfl
    | (index + 1) :: others => exact ih (index :: others)
  | element found attributes content rest inner outer =>
    match place with
    | [] | [0] => rfl
    | 0 :: index :: others => exact inner (index :: others)
    | (index + 1) :: others => exact outer (index :: others)

/-- Changing attributes below an element changes its content only. -/
theorem Element.mapAttributesBelow_eq (element : Element) (name : Text)
    (change : Dict Text → Dict Text) :
    element.mapAttributesBelow name change =
      { element with content := element.content.mapAttributes name change } := by
  rw [mapAttributesBelow, visitDescendants, Content.visit_eq_mapAttributes]

end ApiPages
