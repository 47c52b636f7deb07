import Mathlib.Data.List.Forall2
import ApiPages.Proofs.DefaultPool

/-!
# Indexes and sections

The index of a page decides by itself which members it lists, and so does the renderer of members.
Both ask for the same three statements of a member, so the index has one line for each section, in
the same order, and the line shows the label, the name and the anchor that the heading of the
section shows.
-/
namespace ApiPages.Markdown

/-- What a line of an index, or the heading of a section, shows of a member. -/
structure Heading where
  /-- The kind of the member. -/
  kind : MemberKind
  /-- The name under which the member is shown. -/
  name : Text
  /-- The anchor that the heading carries and the line links to. -/
  anchor : Text

namespace Heading

/-- The line of an index: the label of the kind and a link to the anchor under the name. -/
def item (heading : Heading) : Text :=
  "* ".toList ++ heading.kind.label ++ ": [".toList ++ heading.name ++ "](#".toList ++
    heading.anchor ++ ")".toList

/-- The heading of a section: the label of the kind, the anchor and the name. -/
def line (heading : Heading) : Text :=
  "#### ".toList ++ heading.kind.label ++ ": <a name=\"".toList ++ heading.anchor ++
    "\"></a>".toList ++ heading.name

/-- What is shown of a member is what the member states. -/
structure Shows (heading : Heading) (member : Element) : Prop where
  /-- The name is the one that the member states. -/
  name : member.attribute? Names.name = some heading.name
  /-- The kind is the one that the member states. -/
  kind : member.attribute? Names.memberType = some heading.kind.code
  /-- The anchor is made of the namespace that the member states and the name. -/
  anchor : ∃ space, member.attribute? Names.space = some space ∧
    heading.anchor = Markdown.anchor space heading.name

/-- A section opens with a heading, behind a rule if it is that of a type. -/
def Opens (heading : Heading) (newline part : Text) : Prop :=
  ∃ rule body, (rule = [] ∨ rule = "---".toList ++ newline) ∧
    part = rule ++ heading.line ++ newline ++ newline ++ body

/-- What is shown of a member that states all that is needed. -/
def ofMember? (member : Element) : Option Heading := do
  let name ← member.attribute? Names.name
  let kind ← MemberKind.ofCode? (← member.attribute? Names.memberType)
  let space ← member.attribute? Names.space
  some ⟨kind, name, Markdown.anchor space name⟩

/-- The section under a heading. -/
def part (heading : Heading) (newline body : Text) : Text :=
  Section.write ⟨"<a name=\"".toList ++ heading.anchor ++ "\"></a>".toList ++ heading.name, body⟩
    heading.kind newline

/-- What is shown of a member that has a heading is what it states. -/
theorem shows_of_ofMember? {member : Element} {heading : Heading}
    (found : ofMember? member = some heading) : heading.Shows member := by
  simp only [ofMember?, bind, Option.bind_eq_some_iff, Option.some.injEq] at found
  obtain ⟨name, named, code, coded, kind, known, space, placed, rfl⟩ := found
  have written : code = kind.code := MemberKind.ofCode?_eq_some_iff.1 known
  exact ⟨named, coded.trans (congrArg some written), space, placed, rfl⟩

/-- A section that opens with a heading is not empty. -/
theorem Opens.ne_nil {heading : Heading} {newline part : Text}
    (opens : heading.Opens newline part) : part ≠ [] := by
  obtain ⟨rule, body, -, rfl⟩ := opens
  unfold line
  simp

/-- The section under a heading opens with it. -/
theorem opens_part (heading : Heading) (newline body : Text) :
    heading.Opens newline (heading.part newline body) := by
  obtain ⟨kind, name, anchor⟩ := heading
  cases kind with
  | type =>
    refine ⟨"---".toList ++ newline, body ++ newline ++ newline, .inr rfl, ?_⟩
    unfold line part Section.write MemberKind.label
    simp
  | method | property | field | event =>
    refine ⟨[], newline ++ body ++ newline, .inl rfl, ?_⟩
    unfold line part Section.write
    simp

/-- The index has a line for a member that has a heading: the line of the heading. -/
theorem indexLine?_eq (member : Element) : indexLine? member = (ofMember? member).map item := by
  have written : ∀ kind name space, indexItem kind name (Markdown.anchor space name) =
      item ⟨kind, name, Markdown.anchor space name⟩ := by
    intro kind name space
    unfold item indexItem link
    simp
  simp only [indexLine?, ofMember?, bind, Option.map_bind, Function.comp_def, Option.map_some,
    written]

/-- The renderer of members gives a section to a member that has a heading: the section under it. -/
theorem member_eq (subject : Subject) :
    Markdown.member subject =
      (ofMember? subject.element).map (part · subject.newline subject.children) := by
  have written : ∀ kind name space body newline,
      Section.write ⟨anchoredName space name, body⟩ kind newline =
        part ⟨kind, name, Markdown.anchor space name⟩ newline body := fun _ _ _ _ _ => rfl
  simp only [Markdown.member, Subject.attribute?, ofMember?, bind, Option.map_bind,
    Function.comp_def, Option.map_some, written]

/-- What a member renders to is the section under its heading. -/
theorem render_member (options : Options) {found : Element} (tagged : found.name = Names.member) :
    (defaultPool options).render found =
      ((ofMember? found).map
        (part · options.newline.text ((defaultPool options).renderChildren found))).getD [] := by
  have registered : (defaultPool options).renderers.get? found.name = some Markdown.member := by
    rw [tagged]
    exact defaultPool_member options
  rw [render_eq_of_renderer registered, member_eq]
  rfl

end Heading

variable {members : List Element}

/-- The members with a section are, in order, those with a heading. -/
theorem sections_forall₂ (options : Options)
    (tagged : ∀ found ∈ members, found.name = Names.member) :
    List.Forall₂ (fun found heading => heading.Shows found ∧
        heading.Opens options.newline.text ((defaultPool options).render found))
      (members.filter fun found => (defaultPool options).render found ≠ [])
      (members.filterMap Heading.ofMember?) := by
  induction members with
  | nil => exact .nil
  | cons head rest ih =>
    have later := ih fun found member => tagged found (List.mem_cons_of_mem _ member)
    have rendered := Heading.render_member options (tagged head List.mem_cons_self)
    cases shown : Heading.ofMember? head with
    | none =>
      have silent : (defaultPool options).render head = [] := by simpa [shown] using rendered
      simpa [shown, silent] using later
    | some heading =>
      have opens : heading.Opens options.newline.text ((defaultPool options).render head) := by
        rw [rendered, shown]
        exact heading.opens_part _ _
      simp only [List.filterMap_cons, shown, List.filter_cons, ne_eq, opens.ne_nil,
        not_false_eq_true, decide_true, if_true]
      exact .cons ⟨Heading.shows_of_ofMember? shown, opens⟩ later

/-- The lines of an index are those of the headings, in order. -/
theorem indexLines_eq (members : List Element) :
    members.filterMap indexLine? = (members.filterMap Heading.ofMember?).map Heading.item := by
  rw [List.map_filterMap]
  exact List.filterMap_congr fun found _ => Heading.indexLine?_eq found

/-- The text of an index, from its headings. -/
theorem index_eq (newline : Text) (members : List Element) :
    index newline members =
      match members.filterMap Heading.ofMember? with
      | [] => []
      | headings =>
        "## Index".toList ++ newline ++ newline ++
          headings.flatMap (fun heading => heading.item ++ newline) ++ newline := by
  rw [index, indexLines_eq]
  cases members.filterMap Heading.ofMember? with
  | nil => rfl
  | cons heading others => simp [List.flatMap_map]

/-- An index is empty exactly when no member has a section. -/
theorem index_eq_nil_iff (options : Options)
    (tagged : ∀ found ∈ members, found.name = Names.member) (newline : Text) :
    index newline members = [] ↔
      ∀ found ∈ members, (defaultPool options).render found = [] := by
  have sections := sections_forall₂ options tagged
  have silent : (∀ found ∈ members, (defaultPool options).render found = []) ↔
      members.filter (fun found => (defaultPool options).render found ≠ []) = [] := by
    simp
  rw [index_eq, silent]
  cases shown : members.filterMap Heading.ofMember? with
  | nil =>
    rw [shown, List.forall₂_nil_right_iff] at sections
    exact iff_of_true rfl sections
  | cons heading others =>
    rw [shown] at sections
    cases listed : members.filter (fun found => (defaultPool options).render found ≠ []) with
    | nil =>
      rw [listed] at sections
      cases sections
    | cons first rest => simp

/-- A page with an index is the index in front of the page without one. -/
theorem page_withIndex (newline : Newline) (document : NamespaceDocument) :
    page (defaultPool ⟨newline, true⟩) document =
      index newline.text document.members ++ page (defaultPool ⟨newline, false⟩) document := by
  have same : (defaultPool ⟨newline, true⟩).render = (defaultPool ⟨newline, false⟩).render :=
    funext (render_withIndex newline true false)
  have on : (defaultPool ⟨newline, true⟩).options = ⟨newline, true⟩ := rfl
  have off : (defaultPool ⟨newline, false⟩).options = ⟨newline, false⟩ := rfl
  rw [page, page, on, off, same]
  simp

/-- The index and the sections of a page agree. For the members that have a section, in order, there
are headings, each of which shows what its member states and opens its section, and the lines of the
index are those of these headings. The index is empty exactly when no member has a section, and a
page with an index is the index in front of the page without one. -/
theorem index_agrees_with_sections (newline : Newline) (withIndex : Bool)
    (document : NamespaceDocument)
    (tagged : ∀ found ∈ document.members, found.name = "member".toList) :
    let pool := defaultPool ⟨newline, withIndex⟩
    ∃ headings : List Heading,
      List.Forall₂ (fun found heading => heading.Shows found ∧
          heading.Opens newline.text (pool.render found))
        (document.members.filter fun found => pool.render found ≠ []) headings ∧
      document.members.filterMap indexLine? = headings.map Heading.item ∧
      (index newline.text document.members =
        match headings with
        | [] => []
        | _ => "## Index".toList ++ newline.text ++ newline.text ++
            headings.flatMap (fun heading => heading.item ++ newline.text) ++ newline.text) ∧
      (index newline.text document.members = [] ↔
        ∀ found ∈ document.members, pool.render found = []) ∧
      page (defaultPool ⟨newline, true⟩) document =
        index newline.text document.members ++ page (defaultPool ⟨newline, false⟩) document := by
  intro pool
  refine ⟨document.members.filterMap Heading.ofMember?,
    sections_forall₂ ⟨newline, withIndex⟩ tagged, indexLines_eq _, ?_,
    index_eq_nil_iff ⟨newline, withIndex⟩ tagged _, page_withIndex newline document⟩
  rw [index_eq]
  cases document.members.filterMap Heading.ofMember? <;> rfl

/-- A page with a type, a namespace, which has no section, and a method has an index of two
lines. -/
theorem index_agrees_with_sections_of_three :
    let stating (kind name : Text) : Element :=
      ⟨Names.member, .ofList [(Names.name, name), (Names.memberType, kind),
        (Names.space, "Shapes".toList)], .nil⟩
    let document : NamespaceDocument := ⟨none, [stating ['T'] "Circle".toList,
      stating ['N'] "Shapes".toList, stating ['M'] "Scale".toList]⟩
    (∀ found ∈ document.members, found.name = "member".toList) ∧
    ∃ headings : List Heading, headings.length = 2 ∧
      document.members.filterMap indexLine? = headings.map Heading.item ∧
      page (defaultPool ⟨.crlf, true⟩) document =
        index Newline.crlf.text document.members ++ page (defaultPool ⟨.crlf, false⟩) document := by
  intro stating document
  have tagged : ∀ found ∈ document.members, found.name = "member".toList := by
    simp only [document, List.forall_mem_cons]
    exact ⟨rfl, rfl, rfl, List.forall_mem_nil _⟩
  obtain ⟨headings, -, lines, -, -, whole⟩ := index_agrees_with_sections .crlf true document tagged
  have two : (document.members.filterMap indexLine?).length = 2 := rfl
  rw [lines, List.length_map] at two
  exact ⟨tagged, headings, two, lines, whole⟩

end ApiPages.Markdown
