import ApiPages.Proofs.Decoding
import ApiPages.Proofs.Grouping

/-!
# Members beside their types

A type loses one piece of its path to its name, and any other member loses two: its name and that of
the type around it. So a member belongs to the namespace of the type that its path goes on from,
whatever pieces that path has, and a correction puts both into one document.
-/
namespace ApiPages

/-- A member stands in a document under its namespace once it has been corrected. -/
theorem mem_document_of_correctMember {root member corrected : Element} {space : Text}
    (met : member ∈ root.descendantsNamed Names.member)
    (accepted : correctMember member = .ok (space, corrected)) :
    ∃ document, (correct root).1.get? space = some document ∧ corrected ∈ document.members := by
  have placed : corrected ∈
      (root.descendantsNamed Names.member).filterMap (correctedIn space) :=
    List.mem_filterMap.2 ⟨member, met, correctedIn_eq_some_iff.2 accepted⟩
  rw [correct_get?]
  cases filled : (root.descendantsNamed Names.member).filterMap (correctedIn space) with
  | nil => simp [filled] at placed
  | cons head rest => exact ⟨_, rfl, filled ▸ placed⟩

/-- A member whose identifier decodes is corrected and belongs to the decoded namespace. -/
theorem exists_correctMember {member : Element} {raw : Text} {identifier : Identifier}
    (stated : member.attribute? Names.name = some raw)
    (decoded : Identifier.decode raw = .ok identifier) :
    ∃ corrected, correctMember member = .ok (identifier.space, corrected) := by
  rw [correctMember, stated, Option.getD_some, decoded]
  exact ⟨_, rfl⟩

namespace Identifier

/-- The path of a type without parentheses goes on to a member of that type: it decodes to the
namespace of the type, and the name is the member's. -/
theorem decode_inside_type {path kind name : Text} {parameters : Option Text} {type : Identifier}
    (bare : path.IsBare) (typed : decode (MemberKind.type.code ++ ':' :: path) = .ok type)
    (named : kind ≠ []) (absent : ':' ∉ kind) (other : kind ≠ MemberKind.type.code)
    (filled : name ≠ []) (single : '.' ∉ name) (plain : name.IsBare)
    (inside : ∀ inner ∈ parameters, inner.IsBare) :
    decode (kind ++ ':' :: (path ++ '.' :: name ++ parameterText parameters)) =
      .ok ⟨kind, type.space, name⟩ := by
  obtain ⟨outer, pieces, space⟩ := exists_pieces_of_decode typed
  rw [withoutParameters_of_bare bare] at pieces
  have whole : (path ++ '.' :: name).IsBare := by
    have opening : '(' ∉ path ++ '.' :: name := by simp [bare.1, plain.1]
    have closing : ')' ∉ path ++ '.' :: name := by simp [bare.2, plain.2]
    exact ⟨opening, closing⟩
  have joined : (withoutParameters (path ++ '.' :: name ++ parameterText parameters)).splitOn '.' =
      outer ++ [type.name, name] := by
    rw [withoutParameters_parameterText whole inside, List.splitOn_append_cons_self, pieces,
      List.splitOn_eq_singleton single, List.append_assoc, List.singleton_append]
  rw [decode_of_pieces named absent other filled joined, space]

end Identifier

/-- A type and a member of that type belong to one namespace: the identifier that goes on from the
path of a type decodes to the namespace of the type and to the name behind the path. So the
correction of a tree that holds both puts both into the same document. -/
theorem type_and_member_share_document {path kind name : Text} {parameters : Option Text}
    {type : Identifier} (bare : path.IsBare)
    (typed : Identifier.decode (MemberKind.type.code ++ ':' :: path) = .ok type) (named : kind ≠ [])
    (absent : ':' ∉ kind) (other : kind ≠ MemberKind.type.code) (filled : name ≠ [])
    (single : '.' ∉ name) (plain : name.IsBare) (inside : ∀ inner ∈ parameters, inner.IsBare) :
    let raw := kind ++ ':' :: (path ++ '.' :: name ++ Identifier.parameterText parameters)
    Identifier.decode raw = .ok ⟨kind, type.space, name⟩ ∧
    ∀ root, ∀ first ∈ root.descendantsNamed Names.member,
      ∀ second ∈ root.descendantsNamed Names.member,
      first.attribute? Names.name = some (MemberKind.type.code ++ ':' :: path) →
      second.attribute? Names.name = some raw →
      ∃ document, (correct root).1.get? type.space = some document ∧
        (∃ corrected ∈ document.members, correctMember first = .ok (type.space, corrected)) ∧
        ∃ corrected ∈ document.members, correctMember second = .ok (type.space, corrected) := by
  intro raw
  have decoded : Identifier.decode raw = .ok ⟨kind, type.space, name⟩ :=
    Identifier.decode_inside_type bare typed named absent other filled single plain inside
  refine ⟨decoded, fun root first firstMet second secondMet firstStated secondStated => ?_⟩
  obtain ⟨one, firstAccepted⟩ := exists_correctMember firstStated typed
  obtain ⟨two, secondAccepted⟩ := exists_correctMember secondStated decoded
  obtain ⟨document, found, oneListed⟩ := mem_document_of_correctMember firstMet firstAccepted
  obtain ⟨same, again, twoListed⟩ := mem_document_of_correctMember secondMet secondAccepted
  obtain rfl : document = same := Option.some.inj (found.symm.trans again)
  exact ⟨document, found, ⟨one, oneListed, firstAccepted⟩, two, twoListed, secondAccepted⟩

/-- A method of a generic type that is nested in another one stands beside that type, although its
path holds an empty piece and its parameters hold dots. -/
theorem type_and_member_share_document_of_nested :
    let path := "Shapes..Grid.Cell`1".toList
    let raw := "M:Shapes..Grid.Cell`1.Fill(System.Int32,A.B)".toList
    let type : Element := ⟨Names.member, .ofList [(Names.name, "T:".toList ++ path)], .nil⟩
    let method : Element := ⟨Names.member, .ofList [(Names.name, raw)], .nil⟩
    let root : Element := ⟨"doc".toList, .empty, .ofNodes [.element type, .element method]⟩
    Identifier.decode ("T:".toList ++ path) =
      .ok ⟨['T'], "Shapes..Grid".toList, "Cell`1".toList⟩ ∧
    Identifier.decode raw = .ok ⟨['M'], "Shapes..Grid".toList, "Fill".toList⟩ ∧
    ∃ document, (correct root).1.get? "Shapes..Grid".toList = some document ∧
      document.members.length = 2 ∧
      (∃ corrected ∈ document.members,
        correctMember type = .ok ("Shapes..Grid".toList, corrected)) ∧
      ∃ corrected ∈ document.members,
        correctMember method = .ok ("Shapes..Grid".toList, corrected) := by
  intro path raw type method root
  have typed : Identifier.decode (MemberKind.type.code ++ ':' :: path) =
      .ok ⟨['T'], "Shapes..Grid".toList, "Cell`1".toList⟩ := by decide +kernel
  have size : ((correct root).1.get? "Shapes..Grid".toList).map (·.members.length) = some 2 := by
    decide +kernel
  obtain ⟨decoded, share⟩ := type_and_member_share_document ⟨by decide, by decide⟩ typed
    (by decide : ['M'] ≠ []) (by decide) (by decide) (by decide : "Fill".toList ≠ []) (by decide)
    ⟨by decide, by decide⟩
    (fun inner own => Option.some.inj own ▸ ⟨by decide, by decide⟩ :
      ∀ inner ∈ some "System.Int32,A.B".toList, Text.IsBare inner)
  obtain ⟨document, found, both⟩ := share root type (by decide +kernel) method (by decide +kernel)
    rfl rfl
  rw [found] at size
  exact ⟨typed, decoded, document, found, Option.some.inj size, both⟩

end ApiPages
