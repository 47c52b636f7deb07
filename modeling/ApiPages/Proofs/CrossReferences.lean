import ApiPages.Proofs.ParameterLists
import ApiPages.Proofs.ReferenceName

/-!
# References to types and the names they look for

A corrected type states the text under which it is referred to, put together from the decoded
namespace and name, and a corrected reference keeps its target as far as the first generic mark.
The two meet for a type in a namespace none of whose segments is generic. A type of the global
namespace states a dot that references to it do not have, and a reference to a type inside a generic
one ends before the dot.
-/
namespace ApiPages

namespace Identifier

/-- The path of a decoded type is its namespace, a dot and its name, or the name only. -/
theorem path_of_decode {path : Text} {type : Identifier}
    (decoded : decode (MemberKind.type.code ++ ':' :: path) = .ok type) :
    ('.' ∈ withoutParameters path ∧ withoutParameters path = type.space ++ '.' :: type.name) ∨
      ('.' ∉ withoutParameters path ∧ withoutParameters path = type.name ∧ type.space = []) := by
  obtain ⟨outer, pieces, space⟩ := exists_pieces_of_decode decoded
  by_cases dotted : '.' ∈ withoutParameters path
  · obtain ⟨front, split⟩ := Text.exists_eq_append_afterLast dotted
    rw [Text.splitOn_eq_append_afterLast split] at pieces
    obtain ⟨same, last⟩ := List.append_inj' pieces rfl
    have joined : Text.joinWith ['.'] (front.splitOn '.') = front := List.intercalate_splitOn '.'
    refine .inl ⟨dotted, ?_⟩
    rw [space, ← same, joined, ← List.head_eq_of_cons_eq last]
    exact split
  · have single : [] ++ [withoutParameters path] = outer ++ [type.name] :=
      (List.splitOn_eq_singleton dotted).symm.trans pieces
    obtain ⟨same, last⟩ := List.append_inj' single rfl
    refine .inr ⟨dotted, List.head_eq_of_cons_eq last, ?_⟩
    rw [space, ← same]
    rfl

end Identifier

/-- The text under which a type is referred to is what the cut of its identifier leaves, if there is
nothing generic around it and it is in a namespace. -/
theorem crossReference_eq_withoutArity_iff {path : Text} {type : Identifier}
    (decoded : Identifier.decode (MemberKind.type.code ++ ':' :: path) = .ok type)
    (plain : Identifier.withoutParameters path = path) :
    crossReference type = withoutArity (MemberKind.type.code ++ ':' :: path) ↔
      '.' ∈ path ∧ genericMark ∉ type.space := by
  obtain ⟨kind, -, -⟩ := Identifier.decode_parts (by decide) decoded
  have head : genericMark ∉ MemberKind.type.code ++ [':'] := by decide
  have cut : withoutArity (MemberKind.type.code ++ ':' :: path) =
      MemberKind.type.code ++ ':' :: path.before genericMark := by
    have apart := Text.before_append_of_notMem head path
    rwa [List.append_assoc, List.append_assoc] at apart
  rw [cut, crossReference, kind, List.append_assoc, List.append_right_inj, List.cons_append,
    List.cons.injEq, and_iff_right rfl, Identifier.baseName, withoutArity]
  rcases Identifier.path_of_decode decoded with ⟨dotted, split⟩ | ⟨single, split, space⟩
  · rw [plain] at dotted split
    rw [and_iff_right dotted, split, eq_comm]
    exact Text.before_append_cons_iff (by decide)
  · rw [plain] at single split
    refine iff_of_false (fun same => ?_) (fun dotted => single dotted.1)
    rw [space, split, List.nil_append] at same
    exact absurd (congrArg List.length same) (by simp)

/-- A member whose identifier decodes to a type states the text under which it is referred to. -/
theorem exists_correctMember_type {member : Element} {path : Text} {type : Identifier}
    (stated : member.attribute? Names.name = some (MemberKind.type.code ++ ':' :: path))
    (decoded : Identifier.decode (MemberKind.type.code ++ ':' :: path) = .ok type) :
    ∃ corrected, correctMember member = .ok (type.space, corrected) ∧
      corrected.attribute? Names.crossReference = some (crossReference type) := by
  obtain ⟨kind, -, -⟩ := Identifier.decode_parts (by decide) decoded
  rw [correctMember_eq, stated, Option.getD_some, decoded]
  refine ⟨_, rfl, ?_⟩
  have own := attribute?_identify type member Names.crossReference
  rwa [if_neg (by decide), if_neg (by decide), if_neg (by decide), if_pos ⟨rfl, kind⟩] at own

/-- A reference below a corrected member keeps its target as far as the first generic mark. -/
theorem exists_corrected_reference {member corrected found : Element} {space target : Text}
    {place : List Nat} (accepted : correctMember member = .ok (space, corrected))
    (placed : member.content.nodeAt? place = some (.element found))
    (named : found.name = Names.reference) (refers : found.attribute? Names.target = some target) :
    ∃ kept, corrected.content.nodeAt? place = some (.element kept) ∧
      kept.attribute? Names.target = some (withoutArity target) := by
  refine ⟨_, Markdown.nodeAt?_of_reference accepted placed named, ?_⟩
  change (cutTarget found.attributes).get? Names.target = _
  rw [get?_cutTarget, if_pos rfl]
  exact congrArg (Option.map (Text.before genericMark)) refers

/-- When a corrected reference meets its type. A member is named by an identifier of a type that
decodes and holds no parameter list, and a reference anywhere below some member that is corrected
has that identifier as its target. Then the text under which the first one is referred to is the
target that is left of the reference exactly if the path of the identifier has a dot and its
namespace no generic mark. -/
theorem crossReference_eq_target_iff {path space : Text} {type : Identifier}
    {member other corrected see : Element} {place : List Nat}
    (decoded : Identifier.decode ("T:".toList ++ path) = .ok type)
    (plain : ∀ front inner back, ¬Identifier.HoldsList ("T:".toList ++ path) front inner back)
    (stated : member.attribute? "name".toList = some ("T:".toList ++ path))
    (accepted : correctMember other = .ok (space, corrected))
    (placed : other.content.nodeAt? place = some (.element see))
    (named : see.name = "see".toList)
    (refers : see.attribute? "cref".toList = some ("T:".toList ++ path)) :
    ∃ typed kept crossReference target, correctMember member = .ok (type.space, typed) ∧
      corrected.content.nodeAt? place = some (.element kept) ∧
      typed.attribute? "crossref".toList = some crossReference ∧
      kept.attribute? "cref".toList = some target ∧
      (crossReference = target ↔ '.' ∈ path ∧ '\x60' ∉ type.space) := by
  have whole : Identifier.withoutParameters path = path :=
    Identifier.dropsList_iff.1 (.none fun front inner back list =>
      plain _ inner back ((list.cons ':').cons 'T'))
  obtain ⟨typed, correction, crossing⟩ := exists_correctMember_type stated decoded
  obtain ⟨kept, remaining, cut⟩ := exists_corrected_reference accepted placed named refers
  exact ⟨typed, kept, _, _, correction, remaining, crossing, cut,
    crossReference_eq_withoutArity_iff decoded whole⟩

/-- A type with a generic name in a namespace that ends with an empty segment, and a reference to it
inside another reference. -/
theorem crossReference_eq_target_iff_of_grid :
    let path := "Shapes..Grid`2".toList
    let raw := "T:".toList ++ path
    let grid : Element := ⟨Names.member, .ofList [(Names.name, raw)], .nil⟩
    let see (content : Content) : Element :=
      ⟨Names.reference, .ofList [(Names.target, raw)], content⟩
    let method : Element := ⟨Names.member, .ofList [(Names.name, "M:A.B.C".toList)],
      .ofNodes [.text "\n".toList, .element (see (.ofNodes [.element (see .nil)]))]⟩
    Identifier.decode raw = .ok ⟨['T'], "Shapes.".toList, "Grid`2".toList⟩ ∧
    (∀ front inner back, ¬Identifier.HoldsList raw front inner back) ∧
    ∃ typed corrected kept crossReference,
      correctMember grid = .ok ("Shapes.".toList, typed) ∧
      correctMember method = .ok (['A'], corrected) ∧
      corrected.content.nodeAt? [1, 0] = some (.element kept) ∧
      typed.attribute? "crossref".toList = some crossReference ∧
      kept.attribute? "cref".toList = some crossReference := by
  intro path raw grid see method
  have decoded : Identifier.decode raw = .ok ⟨['T'], "Shapes.".toList, "Grid`2".toList⟩ := by
    decide +kernel
  have plain : ∀ front inner back, ¬Identifier.HoldsList raw front inner back := by
    intro front inner back list
    have opening : '(' ∈ raw := by simp [list.split]
    exact absurd opening (by decide)
  have accepted : ∃ corrected, correctMember method = .ok (['A'], corrected) := ⟨_, rfl⟩
  have stated : grid.attribute? Names.name = some raw := rfl
  have placed : method.content.nodeAt? [1, 0] = some (.element (see .nil)) := rfl
  obtain ⟨corrected, accepted⟩ := accepted
  obtain ⟨typed, kept, crossReference, target, correction, remaining, shown, cut, agree⟩ :=
    crossReference_eq_target_iff decoded plain stated accepted placed rfl rfl
  obtain rfl : crossReference = target := agree.2 ⟨by decide, by decide⟩
  exact ⟨decoded, plain, typed, corrected, kept, crossReference, correction, accepted, remaining,
    shown, cut⟩

end ApiPages
