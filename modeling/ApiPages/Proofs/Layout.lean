import ApiPages.Proofs.Reflowing

/-!
# Pages and the layout of a tree

The pages of a tree do not depend on how the tree is laid out: how deep its elements are indented,
where the lines of running text are broken, and into how many text nodes a reader has cut a text.
White space counts only where text is read as it stands, and a cut only where white space stands on
both sides of it.
-/
namespace ApiPages

namespace Content

/-- The second row is the first one laid out in another way: it has the same elements with the same
attributes, and a text wherever the other one has one. Directly inside a member these texts may
differ at will, unless an element further out reads all text below it; directly inside a parameter,
and below code samples and assemblies, they are the same; elsewhere they collapse to the same. -/
inductive Relaid : (ancestors : List Text) → Content → Content → Prop where
  /-- The rows end together. -/
  | nil {ancestors} : Relaid ancestors nil nil
  /-- A text stands for another one. -/
  | text {ancestors first second rest rest'} (agree : TextsAgree ancestors first second)
      (others : Relaid ancestors rest rest') :
      Relaid ancestors (text first rest) (text second rest')
  /-- An element is laid out in another way inside. -/
  | element {ancestors name attributes content content' rest rest'}
      (inside : Relaid (name :: ancestors) content content')
      (others : Relaid ancestors rest rest') :
      Relaid ancestors (element name attributes content rest)
        (element name attributes content' rest')

/-- Another layout is a change of texts. -/
theorem Relaid.reflowed {ancestors : List Text} {first second : Content}
    (relaid : Relaid ancestors first second) : Reflowed ancestors first second := by
  induction relaid with
  | nil => exact .nil
  | text agree _ ih => exact .text agree ih
  | element _ _ inside others => exact .element inside others

/-- The second row is the first one with two neighbouring texts joined, at any depth, which do not
both have white space where they meet. -/
inductive Joined : Content → Content → Prop where
  /-- The first two texts are joined. -/
  | here {first second} (rest)
      (apart : ¬(first.getLast?.any Text.isSpace ∧ second.head?.any Text.isSpace)) :
      Joined (text first (text second rest)) (text (first ++ second) rest)
  /-- The join is behind a text. -/
  | behindText (own) {rest rest'} (later : Joined rest rest') :
      Joined (text own rest) (text own rest')
  /-- The join is inside an element. -/
  | inside (name attributes rest) {content content'} (inner : Joined content content') :
      Joined (element name attributes content rest) (element name attributes content' rest)
  /-- The join is behind an element. -/
  | behindElement (name attributes content) {rest rest'} (later : Joined rest rest') :
      Joined (element name attributes content rest) (element name attributes content rest')

/-- A join is a change of texts, whatever stands around the row. -/
theorem Joined.reflowed {first second : Content} (joined : Joined first second)
    (ancestors : List Text) : Reflowed ancestors first second := by
  induction joined generalizing ancestors with
  | here rest apart => exact .joined apart (.refl ancestors _)
  | behindText own _ ih => exact .text (.refl ancestors own) (ih ancestors)
  | inside name attributes rest _ ih => exact .element (ih _) (.refl ancestors rest)
  | behindElement name attributes content _ ih => exact .element (.refl _ content) (ih ancestors)

end Content

namespace Markdown

/-- The pages of a tree do not depend on how it is laid out. Two trees with the same elements, the
same attributes and texts in the same places have the same pages, under every option, if their texts
agree as far as they are read: not at all directly inside a member that is not below an element
which reads all text; as they stand directly inside a parameter and below code samples and
assemblies; and up to runs of white space elsewhere. -/
theorem pages_of_relaid (options : Options) {first second : Element}
    (named : first.name = second.name)
    (relaid : Content.Relaid [first.name] first.content second.content) :
    pages options (correct first).1 = pages options (correct second).1 :=
  pages_reflowed options named relaid.reflowed

/-- A tree and the same tree with its elements indented, a comment of the author inside the member
and a line of running text broken. -/
theorem pages_of_relaid_of_indented :
    let laid (gap note text sign : String) : Element :=
      ⟨"doc".toList, .empty, .ofNodes [.text gap.toList,
        .element ⟨Names.member, .ofList [(Names.name, "T:Shapes.Circle".toList)],
          .ofNodes [.text note.toList, .element ⟨"summary".toList, .empty,
            .ofNodes [.text text.toList,
              .element ⟨['c'], .empty, .ofNodes [.text sign.toList]⟩]⟩]⟩]⟩
    let plain := laid " " "" "A round shape of radius " "r 1"
    let indented := laid "\n  " "\n    Draft.\n    " "A round\n      shape of radius " "r\n1"
    plain ≠ indented ∧ plain.name = indented.name ∧
    Content.Relaid [plain.name] plain.content indented.content ∧
    pages ⟨.crlf, true⟩ (correct plain).1 = pages ⟨.crlf, true⟩ (correct indented).1 := by
  intro laid plain indented
  have relaid : Content.Relaid [plain.name] plain.content indented.content :=
    .text (by decide) (.element (.text (by decide) (.element (.text (by decide)
      (.element (.text (by decide) .nil) .nil)) .nil)) .nil)
  exact ⟨by decide, rfl, relaid, pages_of_relaid ⟨.crlf, true⟩ rfl relaid⟩

/-- The pages of a tree do not depend on how the reader has cut a text into nodes. Joining two
neighbouring texts at any depth below any elements leaves the pages as they are, under every option,
unless the first one ends and the second one begins with white space. -/
theorem pages_of_joined (options : Options) (root : Element) {content : Content}
    (joined : root.content.Joined content) :
    pages options (correct root).1 = pages options (correct { root with content }).1 :=
  pages_reflowed options rfl (joined.reflowed _)

/-- The text of a parameter that a comment had cut in front of a space. -/
theorem pages_of_joined_of_comment :
    let documented (nodes : List Node) : Content :=
      .ofNodes [.element ⟨Names.member, .ofList [(Names.name, "M:Shapes.Circle.Scale".toList)],
        .ofNodes [.element ⟨"param".toList, .ofList [(Names.name, "factor".toList)],
          .ofNodes nodes⟩]⟩]
    let root : Element := ⟨"doc".toList, .empty,
      documented [.text "The factor".toList, .text " of the radius.".toList]⟩
    let content := documented [.text "The factor of the radius.".toList]
    root.content.Joined content ∧
    pages ⟨.lf, true⟩ (correct root).1 = pages ⟨.lf, true⟩ (correct { root with content }).1 := by
  intro documented root content
  have joined : root.content.Joined content :=
    .inside _ _ _ (.inside _ _ _ (.here .nil (by decide)))
  exact ⟨joined, pages_of_joined ⟨.lf, true⟩ root joined⟩

end Markdown

end ApiPages
