import ApiPages.Element.Visit
import ApiPages.Event

/-!
# Correction and grouping of members

A corrected member states its decoded identifier in attributes: the kind, the namespace, the name
as it is displayed and, for a type, the text under which other members refer to it. References
below it lose the generic marks of their targets. Correcting a tree collects its members by
namespace, each namespace in document order; members whose identifiers cannot be decoded are left
out and reported.
-/
namespace ApiPages

namespace Names

/-- The element of a documented member. -/
def member : Text := "member".toList

/-- The element that names the assembly. -/
def assembly : Text := "assembly".toList

/-- The element that documents a type parameter. -/
def typeParameter : Text := "typeparam".toList

/-- The element that refers to a member inside running text. -/
def reference : Text := "see".toList

/-- The attribute of an identifier before correction, and of a displayed name after it. -/
def name : Text := "name".toList

/-- The attribute of a member's kind. -/
def memberType : Text := "membertype".toList

/-- The attribute of a member's namespace. -/
def space : Text := "namespace".toList

/-- The attribute under which a type is referred to. -/
def crossReference : Text := "crossref".toList

/-- The attribute of the member that an element refers to. -/
def target : Text := "cref".toList

end Names

/-- The members of one namespace, with the assembly of the file that they come from. -/
structure NamespaceDocument where
  /-- The element that names the assembly, if the file has one. -/
  assembly : Option Element
  /-- The corrected members in document order. -/
  members : List Element
deriving DecidableEq

/-- The documents of namespaces under their names; the global namespace has the empty name. -/
abbrev Namespaces := Dict NamespaceDocument

/-- The names of the type parameters that a member documents. -/
def typeParameters (member : Element) : List Text :=
  (member.childrenNamed Names.typeParameter).filterMap (·.attribute? Names.name)

/-- The name under which a member is shown: a generic name is followed by its parameters, or by a
question mark when none is documented, between bars. -/
def displayName (identifier : Identifier) (member : Element) : Text :=
  if identifier.isGeneric then
    let parameters :=
      match typeParameters member with
      | [] => ['?']
      | names => Text.joinWith ", ".toList names
    identifier.baseName ++ '|' :: parameters ++ ['|']
  else identifier.name

/-- The text under which other members refer to a type. -/
def crossReference (identifier : Identifier) : Text :=
  identifier.kind ++ ':' :: identifier.space ++ '.' :: identifier.baseName

/-- Cuts the target of a reference at its first generic mark. -/
def cutTarget (attributes : Dict Text) : Dict Text :=
  match attributes.get? Names.target with
  | some target => attributes.insert Names.target (withoutArity target)
  | none => attributes

/-- States a decoded identifier in the attributes of its member. -/
def identify (identifier : Identifier) (member : Element) : Element :=
  let stated :=
    ((member.setAttribute Names.memberType identifier.kind).setAttribute
      Names.space identifier.space).setAttribute Names.name (displayName identifier member)
  if identifier.memberKind? = some .type then
    stated.setAttribute Names.crossReference (crossReference identifier)
  else stated

/-- Corrects a member and gives the namespace that it belongs to. -/
def correctMember (member : Element) : Except IdentifierError (Text × Element) := do
  let identifier ← Identifier.decode ((member.attribute? Names.name).getD [])
  .ok (identifier.space,
    (identify identifier member).mapAttributesBelow Names.reference cutTarget)

/-- How far the correction of a tree has come. -/
structure Grouping where
  /-- The corrected members under their namespaces. -/
  members : Dict (List Element) := .empty
  /-- How many members have been left out. -/
  skipped : Nat := 0
  /-- What has been reported about members. -/
  events : List Event := []

namespace Grouping

/-- Corrects one more member: it goes behind the others of its namespace, or is left out and
reported when its identifier cannot be decoded. -/
def add (grouping : Grouping) (member : Element) : Grouping :=
  match correctMember member with
  | .ok (space, corrected) =>
    { grouping with members := grouping.members.push space corrected }
  | .error error =>
    { grouping with
      skipped := grouping.skipped + 1
      events := grouping.events ++ [.memberSkipped error] }

/-- Corrects members one after the other. -/
def addAll (grouping : Grouping) (members : List Element) : Grouping := members.foldl add grouping

end Grouping

/-- Corrects every member below a root, collects the results by namespace and reports what
happened. -/
def correct (root : Element) : Namespaces × List Event :=
  let grouping := Grouping.addAll {} (root.descendantsNamed Names.member)
  let assembly := (root.childrenNamed Names.assembly).head?
  (grouping.members.mapValues fun members => ⟨assembly, members⟩,
    .correctionStarted :: grouping.events ++
      .correctionFinished grouping.members.size grouping.skipped ::
        if assembly.isNone then [.assemblyMissing] else [])

end ApiPages
