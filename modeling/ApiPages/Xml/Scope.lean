import ApiPages.Element.Basic
import ApiPages.Xml.Markup

/-!
# Qualifiers

A qualifier stands for a namespace that an attribute of the element or of one around it declares.
Declarations are checked, every qualifier must be declared, and no element may have two attributes
of one name in one namespace. What remains are names without qualifiers: declarations are dropped,
and of two attributes with the same name the later one counts. Texts that are not kept apart by an
element or a gap become one text node.
-/
namespace ApiPages.Xml

/-- The namespace that `declaration` itself stands for. -/
def declarationSpace : Text := "http://www.w3.org/2000/xmlns/".toList

/-- The qualifier that needs no declaration on attributes. -/
def reserved : Text := "xml".toList

/-- The namespace of the reserved qualifier. -/
def reservedSpace : Text := "http://www.w3.org/XML/1998/namespace".toList

/-- The namespaces of the qualifiers that are declared, the innermost declaration first. -/
abbrev Scope := List (Text × Text)

/-- The namespace of a qualifier. -/
def Scope.spaceOf? (scope : Scope) (qualifier : Text) : Option Text :=
  (scope.find? (·.1 = qualifier)).map (·.2)

/-- Whether an attribute is a declaration. -/
def isDeclaration (name : QualifiedName) : Bool :=
  name.qualifier = declaration || name.base = declaration

/-- Reads the declarations of an element, each against the qualifiers that it has already declared.
A declaration of the reserved qualifier must give its own namespace, and declares nothing new. -/
def declareFrom : (declared : Scope) → List (QualifiedName × Text) → Option Scope
  | declared, [] => some declared
  | declared, (name, space) :: rest =>
    if name.qualifier = declaration then
      if space = declarationSpace then none
      else if decide (name.base = reserved) != decide (space = reservedSpace) then none
      else if (declared.spaceOf? name.base).isSome then none
      else if space = reservedSpace then declareFrom declared rest
      else declareFrom ((name.base, space) :: declared) rest
    else if name.base = declaration then
      if space = reservedSpace ∨ space = declarationSpace then none
      else declareFrom declared rest
    else declareFrom declared rest

/-- The namespace of an attribute; one without a qualifier has none. -/
def attributeSpace? (scope : Scope) (name : QualifiedName) : Option (Option Text) :=
  if name.qualifier = reserved then some (some reservedSpace)
  else if name.qualifier = [] then some none
  else (scope.spaceOf? name.qualifier).map some

/-- Whether every attribute has a namespace, and no two have the same name in the same one. -/
def distinctAttributes (scope : Scope) (attributes : List (QualifiedName × Text)) : Bool :=
  match attributes.mapM fun (name, _) => (attributeSpace? scope name).map (·, name.base) with
  | some names => decide names.Nodup
  | none => false

/-- Whether the name of an element may be used in a scope. -/
def admitsElement (scope : Scope) (name : QualifiedName) : Bool :=
  name.qualifier = [] || (scope.spaceOf? name.qualifier).isSome

/-- The attributes of an element other than declarations, and the scope inside it. -/
def enter? (scope : Scope) (attributes : List (QualifiedName × Text)) :
    Option (Scope × List (QualifiedName × Text)) := do
  let declared ← declareFrom [] (attributes.filter fun entry => isDeclaration entry.1)
  let own := attributes.filter fun entry => !isDeclaration entry.1
  if distinctAttributes (declared ++ scope) own then some (declared ++ scope, own) else none

/-- Puts a text in front of a row, joined to a text node that the row begins with. -/
def prependText (text : Text) : Content → Content
  | .text following rest => .text (text ++ following) rest
  | content => .text text content

/-- The content of a row. The result also says whether the row begins with a gap, which keeps a text
before it apart. -/
def resolveRow : Scope → Markup → Option (Bool × Content)
  | _, .nil => some (false, .nil)
  | scope, .gap rest => do
    let (_, content) ← resolveRow scope rest
    some (true, content)
  | scope, .stray attributes rest => do
    let _ ← enter? scope attributes
    resolveRow scope rest
  | scope, .text text rest => do
    let (apart, content) ← resolveRow scope rest
    some (false, if apart then .text text content else prependText text content)
  | scope, .element name attributes content rest => do
    let (inner, own) ← enter? scope attributes
    if admitsElement inner name then
      let (_, content) ← resolveRow inner content
      let (_, rest) ← resolveRow scope rest
      some (false, .element name.base
        (.ofList (own.map fun (name, value) => (name.base, value))) content rest)
    else none

/-- The content of a tree. -/
def resolve (markup : Markup) : Option Content := (resolveRow [] markup).map (·.2)

end ApiPages.Xml
