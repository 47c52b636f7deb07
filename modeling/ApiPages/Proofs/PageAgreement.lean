import ApiPages.Markdown.Page
import ApiPages.Proofs.MemberCorrection
import ApiPages.Proofs.Merging

/-!
# Trees with the same pages

The pages of a tree are decided by what is shown of its members, one after the other, and by the
title of its assembly: each member goes to a namespace, and gives it a section and a line of the
index. So two trees whose members show the same, in the same order, have the same pages.
-/
namespace ApiPages

namespace Markdown

/-- What the pages show of a corrected member: its section and its line in an index. -/
def display (pool : Pool) (corrected : Element) : Text × Option Text :=
  (pool.render corrected, indexLine? corrected)

/-- What the pages show of a member once it has been corrected, with its namespace; nothing when
it is left out. -/
def shown? (pool : Pool) (member : Element) : Option (Text × Text × Option Text) :=
  match correctMember member with
  | .ok (space, corrected) => some (space, display pool corrected)
  | .error _ => none

/-- What is shown of the members that a tree contributes to a namespace. -/
theorem map_display_membersIn (pool : Pool) (root : Element) (space : Text) :
    (root.membersIn space).map (display pool) =
      ((root.descendantsNamed Names.member).filterMap (shown? pool)).filterMap fun shown =>
        if shown.1 = space then some shown.2 else none := by
  rw [Element.membersIn, List.map_filterMap, List.filterMap_filterMap]
  refine List.filterMap_congr fun member _ => ?_
  rw [correctedIn, shown?]
  cases correctMember member with
  | error error => rfl
  | ok result =>
    obtain ⟨found, corrected⟩ := result
    by_cases here : found = space <;> simp [here]

/-- A page is decided by the title of the assembly and what is shown of the members. -/
theorem page_congr (pool : Pool) {first second : NamespaceDocument}
    (assembly : first.assembly.map pool.render = second.assembly.map pool.render)
    (members : first.members.map (display pool) = second.members.map (display pool)) :
    page pool first = page pool second := by
  have sections : ∀ document : NamespaceDocument, document.members.flatMap pool.render =
      (document.members.map (display pool)).flatMap (·.1) := by
    intro document
    rw [List.flatMap_map]
    rfl
  have lines : ∀ document : NamespaceDocument, document.members.filterMap indexLine? =
      (document.members.map (display pool)).filterMap (·.2) := by
    intro document
    rw [List.filterMap_map]
    rfl
  rw [page, page, assembly, sections, sections, members, index, index, lines, lines, members]

/-- Trees whose members show the same, in the same order, and whose assemblies have the same title
have the same pages. -/
theorem pages_correct_congr (options : Options) {first second : Element}
    (assembly : (first.childrenNamed Names.assembly).head?.map (defaultPool options).render =
      (second.childrenNamed Names.assembly).head?.map (defaultPool options).render)
    (members : (first.descendantsNamed Names.member).filterMap (shown? (defaultPool options)) =
      (second.descendantsNamed Names.member).filterMap (shown? (defaultPool options))) :
    pages options (correct first).1 = pages options (correct second).1 := by
  refine Dict.ext_get? fun space => ?_
  have displayed : (first.membersIn space).map (display (defaultPool options)) =
      (second.membersIn space).map (display (defaultPool options)) := by
    rw [map_display_membersIn, map_display_membersIn, members]
  have silent : first.membersIn space = [] ↔ second.membersIn space = [] := by
    rw [← List.map_eq_nil_iff (f := display (defaultPool options)), displayed, List.map_eq_nil_iff]
  rw [pages, pages, Dict.get?_mapValues, Dict.get?_mapValues, correct_get?_eq, correct_get?_eq,
    if_congr silent rfl rfl]
  split
  · rfl
  · exact congrArg some (page_congr _ assembly displayed)

/-- A member shows the same as another one with the same attributes and type parameters if the
default pool makes the same of what a correction leaves inside them. -/
theorem shown?_congr (pool : Pool) {first second : Element}
    (attributes : first.attributes = second.attributes)
    (parameters : typeParameters first = typeParameters second)
    (rendered : ∀ attributes,
      pool.render ⟨first.name, attributes,
        first.content.mapAttributes Names.reference cutTarget⟩ =
      pool.render ⟨second.name, attributes,
        second.content.mapAttributes Names.reference cutTarget⟩) :
    shown? pool first = shown? pool second := by
  have raw : first.attribute? Names.name = second.attribute? Names.name := by
    rw [Element.attribute?, Element.attribute?, attributes]
  rw [shown?, shown?, correctMember_eq, correctMember_eq, raw]
  cases Identifier.decode ((second.attribute? Names.name).getD []) with
  | error error => rfl
  | ok identifier =>
    have stated : (identify identifier first).attributes =
        (identify identifier second).attributes := by
      simp only [identify, displayName, parameters, Element.setAttribute, attributes]
      split <;> rfl
    simp only [Except.map, display, indexLine?, Element.attribute?, stated]
    rw [name_identify, name_identify, rendered]

end Markdown

end ApiPages
