import ApiPages.Proofs.Reflowing

/-!
# Elements that leave no trace

An element without a renderer shows nothing, and nothing of what is inside it. So it can be left out
of its row, with everything below it, wherever no element around it shows all text below: what is
rendered of the rows around it, and of the member, stays the same.
-/
namespace ApiPages

/-- An element whose name a pool does not know comes to nothing. -/
theorem Pool.settle_of_unregistered {pool : Pool} {element : Element}
    (unregistered : pool.renderers.get? element.name = none) (parts : List Part) :
    pool.settle element parts = .unregistered := by
  rw [settle, unregistered]

/-- A part in front of parts that show the same. -/
theorem Part.join_cons_congr (first : Part) {parts others : List Part}
    (same : joinElements parts = joinElements others ∧ joinMixed parts = joinMixed others) :
    joinElements (first :: parts) = joinElements (first :: others) ∧
      joinMixed (first :: parts) = joinMixed (first :: others) := by
  obtain ⟨elements, mixed⟩ := same
  simp only [joinElements, joinMixed, List.flatMap_cons] at elements mixed ⊢
  exact ⟨by rw [elements], by rw [mixed]⟩

namespace Content

/-- The second row is the first one without an element and everything below it. The elements around
that element, up to the row, have the given names, of which the outermost is the first. -/
inductive Without (gone : Element) : (around : List Text) → Content → Content → Prop where
  /-- The first node is left out. -/
  | here (rest) : Without gone [] (element gone.name gone.attributes gone.content rest) rest
  /-- The element is behind a text. -/
  | behindText (own) {around rest rest'} (later : Without gone around rest rest') :
      Without gone around (text own rest) (text own rest')
  /-- The element is inside another one. -/
  | inside (name attributes rest) {around content content'}
      (inner : Without gone around content content') :
      Without gone (name :: around) (element name attributes content rest)
        (element name attributes content' rest)
  /-- The element is behind another one. -/
  | behindElement (name attributes content) {around rest rest'}
      (later : Without gone around rest rest') :
      Without gone around (element name attributes content rest)
        (element name attributes content rest')

namespace Without

open Markdown

variable {gone : Element} {around : List Text} {first second : Content}

/-- No text of the row itself is left out. -/
theorem ownText_eq (without : Without gone around first second) :
    first.ownText = second.ownText := by
  induction without with
  | here rest => rfl
  | behindText own _ ih => rw [ownText, ownText, ih]
  | inside name attributes rest _ _ => rfl
  | behindElement name attributes content _ ih => rw [ownText, ownText, ih]

/-- The same is read of an element that does not show all text below it when the same is rendered
inside. -/
theorem readAlike {options : Options} {name : Text} {attributes : Dict Text}
    (without : Without gone around first second) (unread : name ∉ Names.readingAll)
    (children : Part.joinElements ((defaultPool options).parts first) =
      Part.joinElements ((defaultPool options).parts second))
    (mixed : Part.joinMixed ((defaultPool options).parts first) =
      Part.joinMixed ((defaultPool options).parts second)) :
    Subject.ReadAlike name
      ⟨options, ⟨name, attributes, first⟩, (defaultPool options).parts first⟩
      ⟨options, ⟨name, attributes, second⟩, (defaultPool options).parts second⟩ where
  newline := rfl
  attributes := rfl
  children := children
  mixed _ := mixed
  ownText _ := without.ownText_eq
  deepText code := absurd (by rw [code]; decide) unread
  label labelled := by
    have read : ∀ name ∈ labelledNames, name ∈ Names.readingAll := by decide
    exact absurd (read name labelled) unread
  assemblyName assembly := absurd (by rw [assembly]; decide) unread

/-- The rest of the row is rendered as if the element had been there. -/
theorem parts_eq (options : Options) (without : Without gone around first second)
    (unregistered : (defaultPool options).renderers.get? gone.name = none)
    (unread : ∀ name ∈ around, name ∉ Names.readingAll) :
    Part.joinElements ((defaultPool options).parts first) =
        Part.joinElements ((defaultPool options).parts second) ∧
      Part.joinMixed ((defaultPool options).parts first) =
        Part.joinMixed ((defaultPool options).parts second) := by
  induction without with
  | here rest =>
    have nothing := Pool.settle_of_unregistered unregistered
      ((defaultPool options).parts gone.content)
    simp [Pool.parts, Part.joinElements, Part.joinMixed, nothing, Outcome.text]
  | behindText own _ ih => exact Part.join_cons_congr _ (ih unread)
  | @inside name attributes rest _ content content' inner ih =>
    obtain ⟨own, others⟩ := List.forall_mem_cons.1 unread
    obtain ⟨elements, mixed⟩ := ih others
    have same := settle_readAlike ⟨name, attributes, content⟩ ⟨name, attributes, content'⟩ rfl
      (inner.readAlike own elements mixed)
    simp only [Pool.parts, same, and_self]
  | behindElement name attributes content _ ih => exact Part.join_cons_congr _ (ih unread)

end Without

end Content

namespace Markdown

/-- Elements of unknown names are skipped without a trace. If the default pool has no renderer for
an element that stands anywhere inside a member, and no element between the two is inline code, a
code sample, a reference or an assembly, then the member without that element, and without
everything below it, comes to the same. -/
theorem dispatch_without_unregistered (options : Options) {member gone : Element}
    {around : List Text} {content : Content} (named : member.name = "member".toList)
    (unregistered : (defaultPool options).renderers.get? gone.name = none)
    (without : member.content.Without gone around content)
    (unread : ∀ name ∈ around,
      name ∉ [['c'], "code".toList, "see".toList, "seealso".toList, "assembly".toList]) :
    (defaultPool options).dispatch { member with content } =
      (defaultPool options).dispatch member := by
  obtain ⟨elements, mixed⟩ := without.parts_eq options unregistered unread
  have own : member.name ∉ Names.readingAll := by
    rw [named]
    decide
  exact (settle_readAlike member { member with content } rfl
    (without.readAlike own elements mixed)).symm

/-- A figure, with the code and the remark in it, is left out of a paragraph of the remarks on a
method. -/
theorem dispatch_without_unregistered_of_figure :
    let figure : Element := ⟨"figure".toList, .empty, .ofNodes
      [.element ⟨"code".toList, .empty, .text "o--o".toList .nil⟩,
        .element ⟨"remarks".toList, .empty, .text "A radius.".toList .nil⟩]⟩
    let documented (nodes : List Node) : Element := ⟨Names.member,
      .ofList [(Names.name, "Scale".toList), (Names.memberType, ['M']),
        (Names.space, "Shapes".toList)],
      .ofNodes [.text "\n".toList, .element ⟨"remarks".toList, .empty, .ofNodes
        [.text "Grows ".toList, .element ⟨"para".toList, .empty, .ofNodes nodes⟩]⟩]⟩
    let whole := documented [.text "the radius ".toList, .element figure, .text " only.".toList]
    let content := (documented [.text "the radius ".toList, .text " only.".toList]).content
    (defaultPool ⟨.crlf, false⟩).renderers.get? figure.name = none ∧
    whole.content.Without figure ["remarks".toList, "para".toList] content ∧
    (defaultPool ⟨.crlf, false⟩).dispatch { whole with content } =
      (defaultPool ⟨.crlf, false⟩).dispatch whole ∧
    (defaultPool ⟨.crlf, false⟩).dispatch whole = .rendered
      ("#### Method: <a name=\"shapes.scale\"></a>Scale\r\n\r\n\r\n" ++
        "**Remarks:** Grows \r\nthe radius  only.\r\n\r\n\r\n").toList := by
  intro figure documented whole content
  have unregistered : (defaultPool ⟨.crlf, false⟩).renderers.get? figure.name = none := rfl
  have without : whole.content.Without figure ["remarks".toList, "para".toList] content :=
    .behindText _ (.inside _ _ _ (.behindText _ (.inside _ _ _ (.behindText _ (.here _)))))
  exact ⟨unregistered, without,
    dispatch_without_unregistered ⟨.crlf, false⟩ rfl unregistered without (by decide),
    by decide +kernel⟩

end Markdown

end ApiPages
