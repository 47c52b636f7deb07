import ApiPages.Correction
import ApiPages.Proofs.Visit

/-!
# What a correction changes

A corrected member is the member with a few attributes set: its own name, kind and namespace, the
cross-reference of a type, and the targets of the references below it. Everything else is kept at
every place of the tree. A correction fails exactly when the identifier of the member cannot be
decoded.
-/
namespace ApiPages

/-- The value of an attribute after another one has been set. -/
theorem Element.attribute?_setAttribute (element : Element) (name value key : Text) :
    (element.setAttribute name value).attribute? key =
      if key = name then some value else element.attribute? key :=
  Dict.get?_insert element.attributes name key value

/-- The attributes of a reference after its target has been cut. -/
theorem get?_cutTarget (attributes : Dict Text) (key : Text) :
    (cutTarget attributes).get? key =
      if key = Names.target then (attributes.get? key).map (Text.before genericMark)
      else attributes.get? key := by
  cases found : attributes.get? Names.target with
  | none => by_cases here : key = Names.target <;> simp [cutTarget, found, here]
  | some target =>
    by_cases here : key = Names.target <;>
      simp [cutTarget, found, here, Dict.get?_insert, withoutArity]

/-- A correction states the identifier in the attributes of the member and cuts the targets of the
references below it. -/
theorem correctMember_eq (member : Element) :
    correctMember member =
      (Identifier.decode ((member.attribute? Names.name).getD [])).map fun identifier =>
        (identifier.space, { identify identifier member with
          content := member.content.mapAttributes Names.reference cutTarget }) := by
  rw [correctMember]
  cases Identifier.decode ((member.attribute? Names.name).getD []) with
  | error error => rfl
  | ok identifier =>
    have content : (identify identifier member).content = member.content := by
      rw [identify]
      split <;> rfl
    simp [bind, Except.bind, Except.map, Element.mapAttributesBelow_eq, content]

/-- Stating an identifier keeps the name of the element. -/
theorem name_identify (identifier : Identifier) (member : Element) :
    (identify identifier member).name = member.name := by
  rw [identify]
  split <;> rfl

/-- Types are the members of the kind `T`. -/
theorem memberKind?_eq_type_iff (identifier : Identifier) :
    identifier.memberKind? = some .type ↔ identifier.kind = ['T'] :=
  MemberKind.ofCode?_eq_some_iff

/-- The attributes of a member whose identifier has been stated. -/
theorem attribute?_identify (identifier : Identifier) (member : Element) (key : Text) :
    (identify identifier member).attribute? key =
      if key = Names.name then some (displayName identifier member)
      else if key = Names.memberType then some identifier.kind
      else if key = Names.space then some identifier.space
      else if key = Names.crossReference ∧ identifier.kind = ['T'] then
        some (crossReference identifier)
      else member.attribute? key := by
  have stated : ∀ key, (((member.setAttribute Names.memberType identifier.kind).setAttribute
      Names.space identifier.space).setAttribute Names.name
        (displayName identifier member)).attribute? key =
      if key = Names.name then some (displayName identifier member)
      else if key = Names.memberType then some identifier.kind
      else if key = Names.space then some identifier.space
      else member.attribute? key := by
    intro key
    have apart : Names.memberType ≠ Names.space := by decide
    simp only [Element.attribute?_setAttribute]
    by_cases typed : key = Names.memberType
    · simp [typed, apart]
    · simp [typed]
  by_cases type : identifier.kind = ['T']
  · have named : Names.crossReference ≠ Names.name := by decide
    have typed : Names.crossReference ≠ Names.memberType := by decide
    have spaced : Names.crossReference ≠ Names.space := by decide
    rw [identify, if_pos ((memberKind?_eq_type_iff identifier).2 type),
      Element.attribute?_setAttribute, stated]
    by_cases here : key = Names.crossReference
    · simp [here, named, typed, spaced, type]
    · simp [here]
  · rw [identify, if_neg (mt (memberKind?_eq_type_iff identifier).1 type), stated]
    simp [type]

/-- The displayed name, from the decoded one and the documented type parameters. -/
theorem displayName_eq (identifier : Identifier) (member : Element) :
    displayName identifier member =
      if '\x60' ∈ identifier.name then
        let names := (member.childrenNamed Names.typeParameter).filterMap (·.attribute? Names.name)
        identifier.name.before '\x60' ++ '|' ::
          (if names = [] then ['?'] else Text.joinWith ", ".toList names) ++ ['|']
      else identifier.name := by
  have generic : identifier.isGeneric = true ↔ '\x60' ∈ identifier.name := by
    simp [Identifier.isGeneric, genericMark]
  by_cases marked : '\x60' ∈ identifier.name
  · rw [displayName, if_pos (generic.2 marked), if_pos marked]
    simp only [typeParameters, Identifier.baseName, withoutArity, genericMark]
    cases (member.childrenNamed Names.typeParameter).filterMap (·.attribute? Names.name) <;> simp
  · rw [displayName, if_neg (mt generic.1 marked), if_neg marked]

/-- How a node below a member may change: a text not at all, and an element only in the target of a
reference, which is cut at its first generic mark. -/
inductive Node.Corrected : Node → Node → Prop where
  /-- A text stays. -/
  | text (own : Text) : Corrected (.text own) (.text own)
  /-- An element keeps its name and every attribute but the target of a reference. -/
  | element {original corrected : Element} (name : corrected.name = original.name)
      (attributes : ∀ key, corrected.attribute? key =
        if original.name = "see".toList ∧ key = "cref".toList then
          (original.attribute? key).map (Text.before '\x60')
        else original.attribute? key) :
      Corrected (.element original) (.element corrected)

/-- Cutting the targets of references changes a node as a correction may. -/
theorem Node.corrected_mapAttributes (node : Node) :
    node.Corrected (node.mapAttributes Names.reference cutTarget) := by
  cases node with
  | text own => exact .text own
  | element original =>
    refine .element rfl fun key => ?_
    change (if original.name = Names.reference then cutTarget original.attributes
        else original.attributes).get? key =
      if original.name = Names.reference ∧ key = Names.target then
        (original.attributes.get? key).map (Text.before genericMark)
      else original.attributes.get? key
    by_cases reference : original.name = Names.reference
    · simp only [reference, if_true, true_and, get?_cutTarget]
    · simp only [reference, if_false, false_and]

/-- A correction changes nothing but what it must. It fails exactly when the identifier in the name
of the member, empty if there is none, cannot be decoded, and for the same reason. Otherwise the
element keeps its name; its attributes state the displayed name, the kind and the namespace and, for
a type, the text under which it is referred to, and the others stay; and at every place below it
the node stays as it was, or is a reference whose target has been cut. -/
theorem correctMember_frame (member : Element) :
    let raw := (member.attribute? "name".toList).getD []
    match correctMember member with
    | .error error => Identifier.decode raw = .error error
    | .ok (space, corrected) => ∃ identifier, Identifier.decode raw = .ok identifier ∧
        identifier.space = space ∧ corrected.name = member.name ∧
        (∀ key, corrected.attribute? key =
          if key = "name".toList then
            let names := (member.childrenNamed "typeparam".toList).filterMap
              (·.attribute? "name".toList)
            some (if '\x60' ∈ identifier.name then
              identifier.name.before '\x60' ++ '|' ::
                (if names = [] then ['?'] else Text.joinWith ", ".toList names) ++ ['|']
            else identifier.name)
          else if key = "membertype".toList then some identifier.kind
          else if key = "namespace".toList then some space
          else if key = "crossref".toList ∧ identifier.kind = ['T'] then
            some (identifier.kind ++ ':' :: space ++ '.' :: identifier.name.before '\x60')
          else member.attribute? key) ∧
        ∀ place, Option.Rel Node.Corrected (member.content.nodeAt? place)
          (corrected.content.nodeAt? place) := by
  intro raw
  rw [correctMember_eq]
  cases decoded : Identifier.decode ((member.attribute? Names.name).getD []) with
  | error error => exact decoded
  | ok identifier =>
    refine ⟨identifier, decoded, rfl, name_identify identifier member, fun key => ?_,
      fun place => ?_⟩
    · have stated := attribute?_identify identifier member key
      rw [displayName_eq] at stated
      exact stated
    · rw [Content.nodeAt?_mapAttributes]
      cases member.content.nodeAt? place with
      | none => exact .none
      | some node => exact .some node.corrected_mapAttributes

end ApiPages
