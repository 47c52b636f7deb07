import ApiPages.Proofs.Merging
import ApiPages.Proofs.MemberCorrection
import ApiPages.Proofs.Separators

/-!
# Pages under both separators

What the renderers agree in carries over to whole trees, by recursion on the tree: an element is
rendered from the inside out, and each renderer is given the same under both separators, but for the
separators. Correcting a tree keeps on one line what stands on one line, and an index shows nothing
else, so the pages of a tree under the two separators are the same but for the separators.
-/
namespace ApiPages

/-! ### Corrected trees -/

/-- An element with the attributes changed of the elements of one name in it and below it. -/
def Element.mapAttributes (name : Text) (change : Dict Text → Dict Text) (element : Element) :
    Element where
  name := element.name
  attributes := if element.name = name then change element.attributes else element.attributes
  content := element.content.mapAttributes name change

namespace Content

/-- The elements of a row whose attributes have been changed. -/
theorem elements_mapAttributes (name : Text) (change : Dict Text → Dict Text)
    (content : Content) :
    (content.mapAttributes name change).elements =
      content.elements.map (Element.mapAttributes name change) := by
  induction content with
  | nil => rfl
  | text own rest ih => exact ih
  | element found attributes content rest _ ih =>
    rw [mapAttributes, elements, elements, ih, List.map_cons]
    rfl

/-- The elements below a row whose attributes have been changed. -/
theorem descendants_mapAttributes (name : Text) (change : Dict Text → Dict Text)
    (content : Content) :
    (content.mapAttributes name change).descendants =
      content.descendants.map (Element.mapAttributes name change) := by
  induction content with
  | nil => rfl
  | text own rest ih => exact ih
  | element found attributes content rest inner outer =>
    rw [mapAttributes, descendants, descendants, inner, outer, List.map_append, List.map_cons]
    rfl

/-- The own text of a row stays as it was. -/
theorem ownText_mapAttributes (name : Text) (change : Dict Text → Dict Text)
    (content : Content) : (content.mapAttributes name change).ownText = content.ownText := by
  induction content with
  | nil => rfl
  | text own rest ih => rw [mapAttributes, ownText, ownText, ih]
  | element found attributes content rest _ ih => exact ih

end Content

namespace Element

/-- An element that shows on one line all that it shows as it is written, and so do the elements
below it. -/
structure StaysOnLine (element : Element) : Prop where
  /-- The element shows it on one line. -/
  own : element.OnLine
  /-- The elements below it do. -/
  below : ∀ found ∈ element.content.descendants, found.OnLine

/-- Cutting the targets of references keeps on one line what stands on one line. -/
theorem OnLine.cutTargets {element : Element} (onLine : element.OnLine) :
    (element.mapAttributes Names.reference cutTarget).OnLine where
  attributes := by
    intro key shown value found
    by_cases reference : element.name = Names.reference
    · rw [attribute?, mapAttributes, if_pos reference, get?_cutTarget] at found
      split at found
      · obtain ⟨target, original, rfl⟩ := Option.map_eq_some_iff.1 found
        intro feed
        exact onLine.attributes key shown target original (Text.mem_of_mem_before feed)
      · exact onLine.attributes key shown value found
    · rw [attribute?, mapAttributes, if_neg reference] at found
      exact onLine.attributes key shown value found
  ownText parameter := by
    have same : (element.mapAttributes Names.reference cutTarget).ownText = element.ownText :=
      Content.ownText_mapAttributes _ _ _
    rw [same]
    exact onLine.ownText parameter
  assemblyName assembly := by
    intro child listed
    rw [childrenNamed, children, mapAttributes, Content.elements_mapAttributes, List.mem_filter,
      List.mem_map] at listed
    obtain ⟨⟨original, met, rfl⟩, named⟩ := listed
    have same : (original.mapAttributes Names.reference cutTarget).deepText = original.deepText :=
      Content.deepText_mapAttributes _ _ _
    rw [same]
    exact onLine.assemblyName assembly original (List.mem_filter.2 ⟨met, named⟩)

/-- A displayed name stays on one line if the identifier and the type parameters do. -/
theorem notMem_displayName {identifier : Identifier} {member : Element}
    (line : '\n' ∉ identifier.name)
    (below : ∀ found ∈ member.content.descendants, found.OnLine) :
    '\n' ∉ displayName identifier member := by
  rw [displayName_eq]
  split
  · have base : '\n' ∉ identifier.name.before '\x60' := fun feed =>
      line (Text.mem_of_mem_before feed)
    have names : ∀ name ∈ (member.childrenNamed Names.typeParameter).filterMap
        (·.attribute? Names.name), '\n' ∉ name := by
      intro name listed
      obtain ⟨child, met, named⟩ := List.mem_filterMap.1 listed
      have within := member.content.elements_subset_descendants (List.mem_filter.1 met).1
      exact (below child within).attributes Names.name (by decide) name named
    have parameters : '\n' ∉ if (member.childrenNamed Names.typeParameter).filterMap
        (·.attribute? Names.name) = [] then ['?'] else Text.joinWith ", ".toList
          ((member.childrenNamed Names.typeParameter).filterMap (·.attribute? Names.name)) := by
      split
      · decide
      · exact Text.notMem_joinWith (by decide) names
    simp only [List.mem_append, List.mem_cons, not_or]
    exact ⟨⟨base, by decide, parameters⟩, by decide, by decide⟩
  · exact line

/-- A correction keeps on one line what stands on one line, in a member and below it. -/
theorem StaysOnLine.of_correctMember {member corrected : Element} {space : Text}
    (stays : member.StaysOnLine) (accepted : correctMember member = .ok (space, corrected)) :
    corrected.StaysOnLine := by
  obtain ⟨own, below⟩ := stays
  rw [correctMember_eq] at accepted
  cases decoded : Identifier.decode ((member.attribute? Names.name).getD []) with
  | error error => simp [decoded, Except.map] at accepted
  | ok identifier =>
    simp only [decoded, Except.map, Except.ok.injEq, Prod.mk.injEq] at accepted
    obtain ⟨rfl, rfl⟩ := accepted
    have raw : '\n' ∉ (member.attribute? Names.name).getD [] := by
      cases named : member.attribute? Names.name with
      | none => simp
      | some name => exact own.attributes Names.name (by decide) name named
    obtain ⟨spaceLine, nameLine⟩ := Identifier.notMem_decode raw decoded
    have cut := own.cutTargets
    refine ⟨⟨?attributes, ?ownText, ?assemblyName⟩, ?below⟩
    case attributes =>
      intro key shown value found
      have stated := attribute?_identify identifier member key
      rw [show (identify identifier member).attribute? key = some value from found] at stated
      split at stated
      · obtain rfl := Option.some.inj stated
        exact notMem_displayName nameLine below
      split at stated
      · rename_i kind
        exact absurd shown (by rw [kind]; decide)
      split at stated
      · obtain rfl := Option.some.inj stated
        exact spaceLine
      split at stated
      · rename_i reference
        exact absurd shown (by rw [reference.1]; decide)
      · exact own.attributes key shown value stated.symm
    case ownText =>
      intro parameter
      exact cut.ownText ((name_identify identifier member).symm.trans parameter)
    case assemblyName =>
      intro assembly
      exact cut.assemblyName ((name_identify identifier member).symm.trans assembly)
    case below =>
      intro found listed
      rw [Content.descendants_mapAttributes] at listed
      obtain ⟨original, met, rfl⟩ := List.mem_map.1 listed
      exact (below original met).cutTargets

end Element

namespace Markdown

open Text

variable (withIndex : Bool)

/-- What becomes of an element under both separators, given what became of the nodes inside it. -/
theorem settle_withReturns {element : Element} (onLine : element.OnLine) (parts : List Part) :
    (defaultPool ⟨.crlf, withIndex⟩).settle element (parts.map Part.withReturns) =
      ((defaultPool ⟨.lf, withIndex⟩).settle element parts).withReturns := by
  rw [Pool.settle, Pool.settle]
  cases found : (defaultPool ⟨.lf, withIndex⟩).renderers.get? element.name with
  | none =>
    have same : (defaultPool ⟨.crlf, withIndex⟩).renderers.get? element.name = none := found
    rw [same]
    rfl
  | some renderer =>
    have same : (defaultPool ⟨.crlf, withIndex⟩).renderers.get? element.name = some renderer :=
      found
    have registered : (element.name, renderer) ∈ defaultRenderers :=
      Dict.mem_of_find_ofList found
    have separated : Subject.Separated ⟨⟨.lf, withIndex⟩, element, parts⟩
        ⟨⟨.crlf, withIndex⟩, element, parts.map Part.withReturns⟩ :=
      ⟨rfl, onLine, Part.joinElements_withReturns parts, Part.joinMixed_withReturns parts, rfl,
        rfl⟩
    have alike := defaultRenderers_separateAlike _ registered _ _ rfl separated
    rw [same]
    exact (congrArg Outcome.ofResult alike).trans (Outcome.ofResult_withReturns _)

/-- What becomes of the nodes of a row under both separators. -/
theorem parts_withReturns {content : Content}
    (onLine : ∀ found ∈ content.descendants, found.OnLine) :
    (defaultPool ⟨.crlf, withIndex⟩).parts content =
      ((defaultPool ⟨.lf, withIndex⟩).parts content).map Part.withReturns := by
  induction content with
  | nil => rfl
  | text own rest ih =>
    rw [Pool.parts, Pool.parts, ih onLine]
    rfl
  | element name attributes content rest inner outer =>
    rw [Content.descendants, List.cons_append] at onLine
    obtain ⟨own, below⟩ := List.forall_mem_cons.1 onLine
    obtain ⟨inside, behind⟩ := List.forall_mem_append.1 below
    rw [Pool.parts, Pool.parts, inner inside, outer behind, settle_withReturns withIndex own]
    rfl

/-- An element renders to the same under both separators, but for the separators. -/
theorem render_withReturns {element : Element} (stays : element.StaysOnLine) :
    (defaultPool ⟨.crlf, withIndex⟩).render element =
      ((defaultPool ⟨.lf, withIndex⟩).render element).withReturns := by
  have inside := parts_withReturns withIndex stays.below
  rw [Pool.render, Pool.render, Pool.dispatch, Pool.dispatch, inside,
    settle_withReturns withIndex stays.own, Outcome.text_withReturns]

/-- A line of an index stays on one line if its heading does. -/
theorem Heading.notMem_item {heading : Heading} (named : '\n' ∉ heading.name)
    (anchored : '\n' ∉ heading.anchor) : '\n' ∉ heading.item := by
  have labelled : '\n' ∉ heading.kind.label := by cases heading.kind <;> decide
  simp [Heading.item, named, anchored, labelled]

/-- The index of members that stay on one line, under both separators. -/
theorem index_withReturns {members : List Element} (onLine : ∀ found ∈ members, found.OnLine)
    (newline : Text) :
    index newline.withReturns members = (index newline members).withReturns := by
  have items : ∀ heading ∈ members.filterMap Heading.ofMember?, '\n' ∉ heading.item := by
    intro heading listed
    obtain ⟨found, met, shown⟩ := List.mem_filterMap.1 listed
    obtain ⟨named, anchored⟩ := Heading.notMem_of_ofMember? (onLine found met) shown
    exact Heading.notMem_item named anchored
  have lines : ∀ headings : List Heading, (∀ heading ∈ headings, '\n' ∉ heading.item) →
      headings.flatMap (fun heading => heading.item ++ newline.withReturns) =
        withReturns (headings.flatMap fun heading => heading.item ++ newline) := by
    intro headings stay
    induction headings with
    | nil => rfl
    | cons head rest ih =>
      obtain ⟨own, others⟩ := List.forall_mem_cons.1 stay
      simp only [List.flatMap_cons, withReturns_append, withReturns_of_notMem own, ih others]
  have title : '\n' ∉ "## Index".toList := by decide
  rw [index_eq, index_eq]
  cases shown : members.filterMap Heading.ofMember? with
  | nil => rfl
  | cons heading others =>
    have whole := lines (heading :: others) (shown ▸ items)
    simp only [whole, withReturns_append, withReturns_of_notMem title]

/-- The page of a document whose elements stay on one line, under both separators. -/
theorem page_withReturns {document : NamespaceDocument}
    (assembly : ∀ found ∈ document.assembly, found.StaysOnLine)
    (members : ∀ found ∈ document.members, found.StaysOnLine) :
    page (defaultPool ⟨.crlf, withIndex⟩) document =
      (page (defaultPool ⟨.lf, withIndex⟩) document).withReturns := by
  have listed : index Newline.crlf.text document.members =
      (index Newline.lf.text document.members).withReturns :=
    index_withReturns (fun found met => (members found met).own) Newline.lf.text
  have sections : document.members.flatMap (defaultPool ⟨.crlf, withIndex⟩).render =
      withReturns (document.members.flatMap (defaultPool ⟨.lf, withIndex⟩).render) := by
    rw [withReturns, withLineEnds, List.flatMap_assoc]
    exact List.flatMap_congr fun found met => render_withReturns withIndex (members found met)
  have title : (document.assembly.map (defaultPool ⟨.crlf, withIndex⟩).render).getD [] =
      ((document.assembly.map (defaultPool ⟨.lf, withIndex⟩).render).getD []).withReturns := by
    cases named : document.assembly with
    | none => rfl
    | some found => exact render_withReturns withIndex (assembly found named)
  rw [page, page, sections, title, withReturns_append, withReturns_append]
  cases withIndex with
  | false => rfl
  | true => exact congrArg (· ++ _ ++ _) listed

/-- Pages under both separators. If nothing that the elements of a tree show as it is written holds
a line feed, the page of every namespace under the longer separator is the page under the shorter
one with every line feed replaced by a carriage return and a line feed. -/
theorem pages_crlf {root : Element} (onLine : ∀ found ∈ root.content.descendants, found.OnLine)
    (space : Text) :
    (pages ⟨.crlf, withIndex⟩ (correct root).1).get? space =
      ((pages ⟨.lf, withIndex⟩ (correct root).1).get? space).map fun page =>
        page.withLineEnds ['\r', '\n'] := by
  rw [pages, pages, Dict.get?_mapValues, Dict.get?_mapValues, Option.map_map]
  cases filed : (correct root).1.get? space with
  | none => rfl
  | some document =>
    rw [correct_get?_eq] at filed
    split at filed
    · cases filed
    obtain rfl := Option.some.inj filed
    have whole : ∀ found ∈ root.content.descendants, found.StaysOnLine := fun found met =>
      ⟨onLine found met, fun inner below => onLine inner (Content.descendants_subset met below)⟩
    refine congrArg some (page_withReturns withIndex ?assembly ?members)
    case assembly =>
      intro found named
      have listed := List.mem_of_head? named
      exact whole found (root.content.elements_subset_descendants (List.mem_filter.1 listed).1)
    case members =>
      intro found listed
      obtain ⟨original, met, contributed⟩ := List.mem_filterMap.1 listed
      exact (whole original (List.mem_filter.1 met).1).of_correctMember
        (correctedIn_eq_some_iff.1 contributed)

/-- A title on a line of its own, and a type whose summary holds line feeds in running text and in a
code sample. -/
def documentedShape : Element where
  name := "doc".toList
  content := .ofNodes
    [.element ⟨Names.assembly, .empty, .ofNodes
        [.element ⟨Names.name, .empty, .ofNodes [.text "Shapes".toList]⟩]⟩,
      .element ⟨Names.member, .ofList [(Names.name, "T:Shapes.Circle".toList)], .ofNodes
        [.element ⟨"summary".toList, .empty, .ofNodes
          [.text "\n  A round\n  shape.\n".toList,
            .element ⟨"code".toList, .empty, .ofNodes [.text "  f();\n\n  g();\n".toList]⟩]⟩]⟩]

/-- The page of the type has a carriage return at the end of every line, also inside the code
sample. -/
theorem pages_crlf_of_shape :
    (∀ found ∈ documentedShape.content.descendants, found.OnLine) ∧
    (pages ⟨.crlf, true⟩ (correct documentedShape).1).get? "Shapes".toList =
      some ("## Index\r\n\r\n* Type: [Circle](#shapes.circle)\r\n\r\n".toList ++
        "# Shapes\r\n\r\n---\r\n#### Type: <a name=\"shapes.circle\"></a>Circle\r\n".toList ++
          "\r\nA round shape. \r\n\x60\x60\x60\r\n".toList ++
            "f();\r\n\r\ng();\r\n\x60\x60\x60\r\n\r\n\r\n\r\n".toList) := by
  have onLine : ∀ found ∈ documentedShape.content.descendants, found.OnLine := by decide +kernel
  refine ⟨onLine, ?_⟩
  rw [pages_crlf true onLine]
  decide +kernel

end Markdown

end ApiPages
