import ApiPages.Proofs.IndexAgreement
import ApiPages.Proofs.LineEnds
import ApiPages.Proofs.MemberCorrection
import ApiPages.Proofs.Merging

/-!
# Rules between sections

The section of a type opens with a rule, three dashes on a line of their own. Behind a line of text
such a line underlines that text instead, so an empty line has to stand in front of it. Indexes,
titles and the sections of types end with an empty line. The section of another member ends with one
unless the last thing that is rendered inside the member is an inline element: its body then leaves
its last line open, the section ends that line, and a rule behind it is no rule.
-/
namespace ApiPages

namespace Markdown

/-- A text that a rule may follow: nothing at all, or one that ends with an empty line. -/
def TakesRule (newline : Newline) (text : Text) : Prop :=
  text = [] ∨ newline.text ++ newline.text <:+ text

/-- A text that a rule may follow, behind another one that it may follow. -/
theorem TakesRule.append {newline : Newline} {front back : Text} (first : TakesRule newline front)
    (second : TakesRule newline back) : TakesRule newline (front ++ back) := by
  rcases second with rfl | ended
  · rwa [List.append_nil]
  · exact .inr (List.suffix_append_of_suffix ended)

/-- A rule may follow the end of a line if it ends an empty line. -/
theorem takesRule_append_newline_iff (newline : Newline) (text : Text) :
    TakesRule newline (text ++ newline.text) ↔ newline.text <:+ text := by
  have filled : text ++ newline.text ≠ [] := by cases newline <;> simp [Newline.text]
  rw [TakesRule, or_iff_right filled, List.suffix_append_self_iff]

/-- An index ends with an empty line. -/
theorem takesRule_index (newline : Newline) (members : List Element) :
    TakesRule newline (index newline.text members) := by
  rw [index]
  split
  · exact .inl rfl
  · rename_i filled
    have lines : newline.text <:+
        (members.filterMap indexLine?).flatMap fun line => line ++ newline.text := by
      obtain unlisted | ⟨earlier, last, listed⟩ :=
        List.eq_nil_or_concat (members.filterMap indexLine?)
      · exact absurd unlisted filled
      · rw [listed, List.concat_eq_append, List.flatMap_append, List.flatMap_singleton]
        exact List.suffix_append_of_suffix (List.suffix_append _ _)
    exact .inr (List.suffix_append_self_iff.2 (List.suffix_append_of_suffix lines))

variable (options : Options)

/-- The title of a page ends with an empty line. -/
theorem takesRule_assembly {found : Element} (named : found.name = Names.assembly) :
    TakesRule options.newline ((defaultPool options).render found) := by
  have registered : (defaultPool options).renderers.get? found.name = some assembly := by
    rw [named]
    rfl
  rw [render_eq_of_renderer registered]
  cases shown : assembly ⟨options, found, (defaultPool options).parts found.content⟩ with
  | none => exact .inl (congrArg (Option.getD · []) shown)
  | some written =>
    refine .inr ?_
    have ended := shown
    simp only [assembly, bind, Option.bind_eq_some_iff, Option.some.injEq] at ended
    obtain ⟨element, -, name, -, rfl⟩ := ended
    rw [show (defaultPool options).options = options from rfl, shown, Option.getD_some]
    exact List.suffix_append_self_iff.2 (List.suffix_append _ _)

/-- The last element that is rendered inside a member is an inline one, so that the section of the
member ends the line of that element and nothing more. The section of a type ends with an empty line
all the same. -/
def LeavesLineOpen (member : Element) : Prop :=
  member.attribute? "membertype".toList ≠ some ['T'] ∧
    ∃ child, lastRendered? options member.children = some child ∧ child.name ∈ inlineNames

/-- The section of a type opens with a rule. -/
theorem prefix_write_type (part : Section) (newline : Text) :
    "---".toList ++ newline <+: part.write .type newline := by
  refine ⟨"#### Type: ".toList ++ part.title ++ newline ++ newline ++ part.body ++ newline ++
    newline, ?_⟩
  unfold Section.write
  simp

/-- When a rule may follow the section of a member. -/
theorem takesRule_section_iff (front : Text) {found : Element} {heading : Heading}
    (named : found.name = Names.member) (headed : Heading.ofMember? found = some heading) :
    TakesRule options.newline (front ++ (defaultPool options).render found) ↔
      ¬LeavesLineOpen options found := by
  have stated : found.attribute? "membertype".toList = some heading.kind.code :=
    (Heading.shows_of_ofMember? headed).kind
  have rendered : (defaultPool options).render found =
      heading.part options.newline.text (found.children.flatMap (defaultPool options).render) := by
    rw [Heading.render_member options named, headed, renderChildren_eq]
    rfl
  rw [rendered, LeavesLineOpen, stated, Heading.part]
  by_cases type : heading.kind = .type
  · rw [type]
    refine iff_of_true (.inr ?_) fun opened => opened.1 rfl
    exact List.suffix_append_of_suffix (List.suffix_append_self_iff.2 (List.suffix_append _ _))
  · have other : some heading.kind.code ≠ some ['T'] := by
      intro same
      have known : MemberKind.ofCode? ['T'] = some heading.kind :=
        MemberKind.ofCode?_eq_some_iff.2 (Option.some.inj same).symm
      exact type (Option.some.inj known).symm
    rw [write_of_ne_type _ type, ← List.append_assoc, takesRule_append_newline_iff,
      ← List.append_assoc, ← List.append_assoc, suffix_children_iff]
    simp [other]

/-- A member that is rendered has a heading. -/
theorem exists_heading_of_render {found : Element} (named : found.name = Names.member)
    (rendered : (defaultPool options).render found ≠ []) :
    ∃ heading, Heading.ofMember? found = some heading := by
  rw [← Option.isSome_iff_exists]
  by_contra silent
  rw [Option.not_isSome_iff_eq_none] at silent
  rw [Heading.render_member options named, silent] at rendered
  exact rendered rfl

/-- When a rule may follow the sections of members, behind a text that it may follow. -/
theorem takesRule_sections_iff {front : Text} (ready : TakesRule options.newline front)
    {members : List Element} (named : ∀ member ∈ members, member.name = Names.member) :
    TakesRule options.newline (front ++ members.flatMap (defaultPool options).render) ↔
      ∀ previous, lastRendered? options members = some previous →
        ¬LeavesLineOpen options previous := by
  cases shown : lastRendered? options members with
  | none =>
    rw [flatMap_render_of_none options shown, List.append_nil]
    exact iff_of_true ready fun _ absent => absurd absent.symm (Option.some_ne_none _)
  | some previous =>
    obtain ⟨met, rendered, before, sections⟩ := flatMap_render_of_some options shown
    obtain ⟨heading, headed⟩ := exists_heading_of_render options (named previous met) rendered
    rw [sections, ← List.append_assoc,
      takesRule_section_iff options _ (named previous met) headed]
    simp only [Option.some.injEq, forall_eq']

/-- A member of a corrected tree states its name, its kind and its namespace. -/
theorem states_of_mem_correct {root : Element} {space : Text} {document : NamespaceDocument}
    (filed : (correct root).1.get? space = some document) {found : Element}
    (listed : found ∈ document.members) :
    found.name = Names.member ∧ ∃ name kind, found.attribute? Names.name = some name ∧
      found.attribute? Names.memberType = some kind ∧
        found.attribute? Names.space = some space := by
  rw [correct_get?_eq] at filed
  split at filed
  · cases filed
  · obtain rfl := Option.some.inj filed
    obtain ⟨original, met, contributed⟩ := List.mem_filterMap.1 listed
    have named : original.name = Names.member := by simpa using (List.mem_filter.1 met).2
    have accepted := correctedIn_eq_some_iff.1 contributed
    rw [correctMember_eq] at accepted
    cases decoded : Identifier.decode ((original.attribute? Names.name).getD []) with
    | error error => simp [decoded, Except.map] at accepted
    | ok identifier =>
      simp only [decoded, Except.map, Except.ok.injEq, Prod.mk.injEq] at accepted
      obtain ⟨rfl, rfl⟩ := accepted
      exact ⟨(name_identify identifier original).trans named, _, _,
        attribute?_identify identifier original Names.name,
        attribute?_identify identifier original Names.memberType,
        attribute?_identify identifier original Names.space⟩

/-- The assembly of a corrected tree is an element of that name. -/
theorem assembly_of_correct {root : Element} {space : Text} {document : NamespaceDocument}
    (filed : (correct root).1.get? space = some document) {found : Element}
    (assembly : document.assembly = some found) : found.name = Names.assembly := by
  rw [correct_get?_eq] at filed
  split at filed
  · cases filed
  · obtain rfl := Option.some.inj filed
    have listed := List.mem_of_head? assembly
    simpa using (List.mem_filter.1 listed).2

/-- What stands in front of the sections of a page ends with an empty line. -/
theorem takesRule_front {root : Element} {space : Text} {document : NamespaceDocument}
    (filed : (correct root).1.get? space = some document) :
    TakesRule options.newline
      ((if options.withIndex then index options.newline.text document.members else []) ++
        (document.assembly.map (defaultPool options).render).getD []) := by
  refine TakesRule.append ?index ?assembly
  case index =>
    split
    · exact takesRule_index _ _
    · exact .inl rfl
  case assembly =>
    cases assembly : document.assembly with
    | none => exact .inl rfl
    | some element => exact takesRule_assembly options (assembly_of_correct filed assembly)

/-- A type of a corrected tree has a section, which opens with a rule. -/
theorem prefix_render_type {root : Element} {space : Text} {document : NamespaceDocument}
    (filed : (correct root).1.get? space = some document) {found : Element}
    (listed : found ∈ document.members)
    (type : found.attribute? Names.memberType = some ['T']) :
    "---".toList ++ options.newline.text <+: (defaultPool options).render found := by
  obtain ⟨named, name, _, stated, -, placed⟩ := states_of_mem_correct filed listed
  have headed : Heading.ofMember? found = some ⟨.type, name, anchor space name⟩ := by
    simp only [Heading.ofMember?, stated, type, placed, bind, Option.bind_some]
    rfl
  rw [Heading.render_member options named, headed]
  exact prefix_write_type _ _

/-- When the rule that opens the section of a type stands by itself. In the page of a namespace of a
corrected tree, every type has a section; it opens with a rule and follows the index, the title and
the sections of the members before it. What it follows is nothing at all or ends with an empty line
exactly when the last section before it, if there is one, is that of a type or does not end with an
inline element of its member. -/
theorem type_rule_stands_iff (root : Element) {space : Text} {document : NamespaceDocument}
    (filed : (correct root).1.get? space = some document) {earlier later : List Element}
    {found : Element} (listed : document.members = earlier ++ found :: later)
    (type : found.attribute? "membertype".toList = some ['T']) :
    let pool := defaultPool options
    let newline := options.newline.text
    let ahead := (if options.withIndex then index newline document.members else []) ++
      (document.assembly.map pool.render).getD [] ++ earlier.flatMap pool.render
    page pool document = ahead ++ pool.render found ++ later.flatMap pool.render ∧
    "---".toList ++ newline <+: pool.render found ∧
    ((ahead = [] ∨ newline ++ newline <:+ ahead) ↔
      ∀ previous, lastRendered? options earlier = some previous →
        ¬LeavesLineOpen options previous) := by
  intro pool newline ahead
  have members : ∀ member ∈ earlier, member.name = Names.member := fun member met =>
    (states_of_mem_correct filed (listed ▸ List.mem_append_left _ met)).1
  refine ⟨?_, ?_, takesRule_sections_iff options (takesRule_front options filed) members⟩
  · have whole : page pool document =
        (if options.withIndex then index newline document.members else []) ++
          (document.assembly.map pool.render).getD [] ++ document.members.flatMap pool.render := rfl
    rw [whole, congrArg (List.flatMap pool.render) listed]
    simp [ahead]
  · exact prefix_render_type options filed
      (listed ▸ List.mem_append_right earlier List.mem_cons_self) type

/-- A method whose documentation holds one element, and a type behind it. -/
def methodBeforeType (content : Content) : Element where
  name := "doc".toList
  content := .ofNodes
    [.element ⟨Names.member, .ofList [(Names.name, "M:Shapes.Circle.Scale".toList)], content⟩,
      .element ⟨Names.member, .ofList [(Names.name, "T:Shapes.Square".toList)], .nil⟩]

/-- The rule of the type stands behind a method with a summary. -/
theorem type_rule_stands_iff_of_summary :
    let pool := defaultPool ⟨.crlf, false⟩
    let root := methodBeforeType (.ofNodes [.element ⟨"summary".toList, .empty,
      .ofNodes [.text "Changes the size.".toList]⟩])
    ∃ (document : NamespaceDocument) (scale square : Element),
      (correct root).1.get? "Shapes".toList = some document ∧
      document.members = [scale] ++ square :: [] ∧
      square.attribute? "membertype".toList = some ['T'] ∧
      page pool document = pool.render scale ++ pool.render square ∧
      "---\r\n".toList <+: pool.render square ∧ "\r\n\r\n".toList <:+ pool.render scale := by
  intro pool root
  have corrected : ∃ scale square : Element,
      (correct root).1.get? "Shapes".toList = some ⟨none, [scale, square]⟩ ∧
      square.attribute? "membertype".toList = some ['T'] ∧ pool.render scale ≠ [] ∧
      (lastRendered? ⟨.crlf, false⟩ scale.children).map (·.name) = some "summary".toList := by
    refine ⟨_, _, rfl, rfl, ?_, rfl⟩
    decide
  obtain ⟨scale, square, filed, type, rendered, last⟩ := corrected
  have listed : (⟨none, [scale, square]⟩ : NamespaceDocument).members = [scale] ++ square :: [] :=
    rfl
  obtain ⟨whole, rule, stands⟩ := type_rule_stands_iff ⟨.crlf, false⟩ root filed listed type
  have closed : ∀ previous, lastRendered? ⟨.crlf, false⟩ [scale] = some previous →
      ¬LeavesLineOpen ⟨.crlf, false⟩ previous := by
    have first : lastRendered? ⟨.crlf, false⟩ [scale] = some scale := by
      simp [lastRendered?, show (defaultPool ⟨.crlf, false⟩).render scale ≠ [] from rendered]
    rintro previous shown ⟨-, child, final, inline⟩
    obtain rfl := Option.some.inj (first.symm.trans shown)
    rw [final] at last
    have named : child.name = "summary".toList := Option.some.inj last
    rw [named] at inline
    exact absurd inline (by decide)
  have ended := stands.2 closed
  simp only [Option.map_none, Option.getD_none, List.append_nil, List.flatMap_singleton]
    at whole ended
  exact ⟨_, scale, square, filed, listed, type, by simpa using whole, rule,
    ended.resolve_left (by simpa using rendered)⟩

/-- The rule of the type underlines the reference that a method ends with. -/
theorem type_rule_underlines_reference :
    let pool := defaultPool ⟨.lf, false⟩
    ∃ (document : NamespaceDocument) (scale square : Element),
      (correct (methodBeforeType (.ofNodes [.element ⟨"seealso".toList,
        .ofList [(Names.target, "T:Shapes.Square".toList)], .nil⟩]))).1.get? "Shapes".toList =
          some document ∧
      document.members = [scale, square] ∧
      square.attribute? "membertype".toList = some ['T'] ∧
      page pool document = pool.render scale ++ pool.render square ∧
      pool.render scale = "#### Method: <a name=\"shapes.scale\"></a>Scale\n\n\n`Square`\n".toList ∧
      ¬"\n\n".toList <:+ pool.render scale := by
  intro pool
  refine ⟨_, _, _, rfl, rfl, rfl, rfl, rfl, ?_⟩
  decide

end Markdown

end ApiPages
