import ApiPages.Element.Basic
import ApiPages.Markdown.Options
import ApiPages.Text.Blank

/-!
# Renderer pools

A pool holds a renderer for each name of an element that it knows. A renderer is given the element
together with what the pool made of the nodes inside it, and gives a text or declines. An element
whose name is not in the pool renders as nothing, and so does one that is declined; a renderer that
gives an empty text has declined. An element is rendered from the inside out, by recursion on the
tree.
-/
namespace ApiPages

/-- What became of an element in a pool. -/
inductive Outcome where
  /-- The pool has no renderer for its name. -/
  | unregistered
  /-- The renderer gave no text. -/
  | declined
  /-- The renderer gave this text. -/
  | rendered (text : Text)
deriving DecidableEq

namespace Outcome

/-- The outcome of what a renderer gave; an empty text counts as none. -/
def ofResult : Option Text → Outcome
  | none | some [] => declined
  | some (head :: rest) => rendered (head :: rest)

/-- The text of an outcome, empty unless something was rendered. -/
def text : Outcome → Text
  | unregistered | declined => []
  | rendered written => written

end Outcome

/-- A node inside an element as its renderer sees it. -/
inductive Part where
  /-- A text node. -/
  | text (text : Text)
  /-- An element, by what became of it. -/
  | element (outcome : Outcome)
deriving DecidableEq

/-- The parts that are elements, joined; text nodes are ignored. -/
def Part.joinElements (parts : List Part) : Text :=
  parts.flatMap fun
    | .text _ => []
    | .element outcome => outcome.text

/-- All parts joined, with white space collapsed in each text node. -/
def Part.joinMixed (parts : List Part) : Text :=
  parts.flatMap fun
    | .text own => own.collapse
    | .element outcome => outcome.text

/-- What a renderer is given. -/
structure Subject where
  /-- How the page is written. -/
  options : Options
  /-- The element to render. -/
  element : Element
  /-- What became of the nodes inside the element, in order. -/
  parts : List Part

namespace Subject

/-- The characters of the line separator. -/
def newline (subject : Subject) : Text := subject.options.newline.text

/-- The value of an attribute of the element. -/
def attribute? (subject : Subject) (name : Text) : Option Text := subject.element.attribute? name

/-- The rendered elements inside the element. -/
def children (subject : Subject) : Text := Part.joinElements subject.parts

/-- The mixed content of the element. -/
def mixed (subject : Subject) : Text := Part.joinMixed subject.parts

/-- The mixed content of the element without white space at its ends. -/
def body (subject : Subject) : Text := subject.mixed.trim

end Subject

/-- Gives the text of an element, or declines it. -/
abbrev Renderer := Subject → Option Text

/-- Renderers under the names of the elements that they render. -/
structure Pool where
  /-- How pages are written. -/
  options : Options
  /-- The renderers. -/
  renderers : Dict Renderer

namespace Pool

/-- The pool without renderers. -/
def empty (options : Options) : Pool := ⟨options, .empty⟩

/-- Sets the renderer for a name. -/
def register (pool : Pool) (name : Text) (renderer : Renderer) : Pool :=
  { pool with renderers := pool.renderers.insert name renderer }

/-- What becomes of an element, given what became of the nodes inside it. -/
def settle (pool : Pool) (element : Element) (parts : List Part) : Outcome :=
  match pool.renderers.get? element.name with
  | none => .unregistered
  | some renderer => .ofResult (renderer ⟨pool.options, element, parts⟩)

/-- What becomes of the nodes of a row. -/
def parts (pool : Pool) : Content → List Part
  | .nil => []
  | .text own rest => .text own :: pool.parts rest
  | .element name attributes content rest =>
    .element (pool.settle ⟨name, attributes, content⟩ (pool.parts content)) :: pool.parts rest

/-- What becomes of an element. -/
def dispatch (pool : Pool) (element : Element) : Outcome :=
  pool.settle element (pool.parts element.content)

/-- The text of an element, empty if it is not rendered. -/
def render (pool : Pool) (element : Element) : Text := (pool.dispatch element).text

/-- The rendered elements directly inside an element, joined. -/
def renderChildren (pool : Pool) (element : Element) : Text :=
  Part.joinElements (pool.parts element.content)

/-- The mixed content of an element: text nodes with white space collapsed, and rendered
elements. -/
def renderMixed (pool : Pool) (element : Element) : Text :=
  Part.joinMixed (pool.parts element.content)

end Pool
end ApiPages
