import Mathlib.Data.List.Basic
import ApiPages.Proofs.DefaultPool

/-!
# How rendered elements end

The default renderers are of two kinds. Inline elements are shown inside running text and leave the
line open; all others end the line that they write. So the text of a row of elements ends a line
exactly when the last of them that is rendered at all is not an inline element.
-/
namespace ApiPages

/-- A line separator ends in a line feed. -/
theorem Newline.getLast?_text (newline : Newline) : newline.text.getLast? = some '\n' := by
  cases newline <;> rfl

/-- A text that ends a line ends in a line feed. -/
theorem Newline.getLast?_of_suffix {newline : Newline} {text : Text}
    (ended : newline.text <:+ text) : text.getLast? = some '\n' := by
  obtain ⟨front, rfl⟩ := ended
  rw [List.getLast?_append, newline.getLast?_text, Option.some_or]

namespace Markdown

/-- The elements that are shown inside running text. -/
def inlineNames : List Text :=
  [['c'], "paramref".toList, "typeparamref".toList, "see".toList, "seealso".toList]

/-- Every text that a renderer gives ends with the line separator. -/
def EndsLine (renderer : Renderer) : Prop :=
  ∀ subject written, renderer subject = some written → subject.newline <:+ written

/-- No text that a renderer gives ends with a line feed. -/
def StaysInLine (renderer : Renderer) : Prop :=
  ∀ subject written, renderer subject = some written → written.getLast? ≠ some '\n'

/-- A captioned line ends with its separator. -/
theorem suffix_captioned (caption body newline : Text) :
    newline <:+ captioned caption body newline :=
  List.suffix_append_of_suffix (List.suffix_cons ' ' newline)

/-- A section ends with the line separator. -/
theorem suffix_write (part : Section) (kind : MemberKind) (newline : Text) :
    newline <:+ part.write kind newline := by
  cases kind <;> exact List.suffix_append _ _

/-- The section of a member other than a type. -/
theorem write_of_ne_type (part : Section) {kind : MemberKind} (other : kind ≠ .type)
    (newline : Text) :
    part.write kind newline = "#### ".toList ++ kind.label ++ ": ".toList ++ part.title ++
      newline ++ newline ++ newline ++ part.body ++ newline := by
  cases kind with
  | type => exact absurd rfl other
  | method | property | field | event => rfl

/-- A span leaves its line open. -/
theorem getLast?_span_ne (text : Text) : (span text).getLast? ≠ some '\n' := by
  have written : span text = ('\x60' :: text) ++ ['\x60'] := rfl
  rw [written, List.getLast?_concat]
  decide

/-- References leave their line open. -/
theorem reference_staysInLine : StaysInLine reference := by
  intro subject written shown
  simp only [reference] at shown
  split at shown
  · obtain rfl := Option.some.inj shown
    rw [List.getLast?_concat]
    decide
  · exact Option.some.inj shown ▸ getLast?_span_ne _
  · exact Option.some.inj shown ▸ getLast?_span_ne _
  · cases shown

/-- A default renderer leaves the line open if its element is an inline one, and ends it
otherwise. -/
theorem defaultRenderers_end :
    ∀ entry ∈ defaultRenderers,
      (entry.1 ∈ inlineNames → StaysInLine entry.2) ∧
        (entry.1 ∉ inlineNames → EndsLine entry.2) := by
  have inline : ∀ {name : Text} {renderer : Renderer}, name ∈ inlineNames → StaysInLine renderer →
      (name ∈ inlineNames → StaysInLine renderer) ∧ (name ∉ inlineNames → EndsLine renderer) :=
    fun listed stays => ⟨fun _ => stays, fun block => absurd listed block⟩
  have block : ∀ {name : Text} {renderer : Renderer}, name ∉ inlineNames → EndsLine renderer →
      (name ∈ inlineNames → StaysInLine renderer) ∧ (name ∉ inlineNames → EndsLine renderer) :=
    fun other ends => ⟨fun inline => absurd inline other, fun _ => ends⟩
  simp only [defaultRenderers, List.forall_mem_cons]
  refine ⟨block (by decide) ?member, block (by decide) ?parameter, block (by decide) ?assembly,
    block (by decide) ?summary, block (by decide) ?remarks, block (by decide) ?returns,
    block (by decide) ?value, block (by decide) ?typeParameter, block (by decide) ?exception,
    block (by decide) ?sample, block (by decide) ?code, block (by decide) ?paragraph,
    inline (by decide) ?inlineCode, inline (by decide) ?nameReference,
    inline (by decide) ?nameReference', inline (by decide) reference_staysInLine,
    inline (by decide) reference_staysInLine, List.forall_mem_nil _⟩
  all_goals intro subject written shown
  case inlineCode | nameReference | nameReference' =>
    obtain ⟨text, -, rfl⟩ := Option.map_eq_some_iff.1 shown
    exact getLast?_span_ne text
  case returns | value => exact Option.some.inj shown ▸ suffix_captioned _ _ _
  case member =>
    simp only [member, bind, Option.bind_eq_some_iff, Option.some.injEq] at shown
    obtain ⟨name, -, code, -, kind, -, space, -, rfl⟩ := shown
    exact suffix_write _ _ _
  case parameter | typeParameter | exception =>
    simp only [parameter, typeParameter, exception, bind, Option.bind_eq_some_iff,
      Option.some.injEq] at shown
    obtain ⟨name, -, rfl⟩ := shown
    exact suffix_captioned _ _ _
  case assembly =>
    simp only [assembly, bind, Option.bind_eq_some_iff, Option.some.injEq] at shown
    obtain ⟨named, -, name, -, rfl⟩ := shown
    exact List.suffix_append _ _
  case summary | remarks | sample | code | paragraph =>
    simp only [summary, remarks, sample, code, paragraph, bind, Option.bind_eq_some_iff,
      Option.some.injEq] at shown
    obtain ⟨body, -, rfl⟩ := shown
    exact List.suffix_append _ _

variable (options : Options)

/-- A rendered element comes from a default renderer. -/
theorem exists_renderer_of_render {found : Element}
    (rendered : (defaultPool options).render found ≠ []) :
    ∃ renderer, (found.name, renderer) ∈ defaultRenderers ∧
      renderer ⟨options, found, (defaultPool options).parts found.content⟩ =
        some ((defaultPool options).render found) := by
  cases registered : (defaultPool options).renderers.get? found.name with
  | none => simp [Pool.render, Pool.dispatch, Pool.settle, registered, Outcome.text] at rendered
  | some renderer =>
    refine ⟨renderer, Dict.mem_of_find_ofList registered, ?_⟩
    have text := render_eq_of_renderer registered
    rw [text] at rendered ⊢
    cases given : renderer ⟨(defaultPool options).options, found,
        (defaultPool options).parts found.content⟩ with
    | none => simp [given] at rendered
    | some written => exact given

/-- A rendered element ends its line unless it is an inline one. -/
theorem suffix_render {found : Element} (rendered : (defaultPool options).render found ≠ [])
    (block : found.name ∉ inlineNames) :
    options.newline.text <:+ (defaultPool options).render found := by
  obtain ⟨renderer, registered, given⟩ := exists_renderer_of_render options rendered
  exact (defaultRenderers_end _ registered).2 block _ _ given

/-- A rendered inline element leaves the line open. -/
theorem getLast?_render_ne {found : Element} (rendered : (defaultPool options).render found ≠ [])
    (inline : found.name ∈ inlineNames) :
    ((defaultPool options).render found).getLast? ≠ some '\n' := by
  obtain ⟨renderer, registered, given⟩ := exists_renderer_of_render options rendered
  exact (defaultRenderers_end _ registered).1 inline _ _ given

/-- The last element of a list that is rendered at all. -/
def lastRendered? (elements : List Element) : Option Element :=
  (elements.filter fun found => (defaultPool options).render found ≠ []).getLast?

/-- Nothing is rendered where there is no last rendered element. -/
theorem flatMap_render_of_none {elements : List Element}
    (silent : lastRendered? options elements = none) :
    elements.flatMap (defaultPool options).render = [] := by
  rw [lastRendered?, List.getLast?_eq_none_iff, List.filter_eq_nil_iff] at silent
  rw [List.flatMap_eq_nil_iff]
  intro found listed
  simpa using silent found listed

/-- The last rendered element ends what is rendered. -/
theorem flatMap_render_of_some {elements : List Element} {last : Element}
    (shown : lastRendered? options elements = some last) :
    last ∈ elements ∧ (defaultPool options).render last ≠ [] ∧
      ∃ front, elements.flatMap (defaultPool options).render =
        front ++ (defaultPool options).render last := by
  have listed := List.mem_of_getLast? shown
  obtain ⟨member, rendered⟩ := List.mem_filter.1 listed
  obtain ⟨earlier, split⟩ := List.getLast?_eq_some_iff.1 shown
  refine ⟨member, by simpa using rendered, earlier.flatMap (defaultPool options).render, ?_⟩
  have kept : ∀ list : List Element, list.flatMap (defaultPool options).render =
      (list.filter fun found => (defaultPool options).render found ≠ []).flatMap
        (defaultPool options).render := by
    intro list
    induction list with
    | nil => rfl
    | cons head rest ih =>
      by_cases silent : (defaultPool options).render head = [] <;> simp [silent, ih]
  rw [kept, split, List.flatMap_append, List.flatMap_singleton]

/-- What is rendered inside a member, behind the end of a line, ends a line unless the last element
that is rendered is an inline one. -/
theorem suffix_children_iff (front : Text) (children : List Element) :
    options.newline.text <:+
        front ++ options.newline.text ++ children.flatMap (defaultPool options).render ↔
      ∀ child, lastRendered? options children = some child → child.name ∉ inlineNames := by
  cases shown : lastRendered? options children with
  | none =>
    rw [flatMap_render_of_none options shown, List.append_nil]
    exact iff_of_true (List.suffix_append _ _) fun _ found => nomatch found
  | some last =>
    obtain ⟨-, rendered, before, body⟩ := flatMap_render_of_some options shown
    rw [body, ← List.append_assoc]
    simp only [Option.some.injEq, forall_eq']
    constructor
    · intro ended inline
      have feed := Newline.getLast?_of_suffix ended
      rw [List.getLast?_append_of_ne_nil _ rendered] at feed
      exact getLast?_render_ne options rendered inline feed
    · intro block
      exact List.suffix_append_of_suffix (suffix_render options rendered block)

/-- The elements inside an element are rendered one after the other. -/
theorem renderChildren_eq (pool : Pool) (element : Element) :
    pool.renderChildren element = element.children.flatMap pool.render := by
  have row : ∀ content : Content,
      Part.joinElements (pool.parts content) = content.elements.flatMap pool.render := by
    intro content
    induction content with
    | nil => rfl
    | text own rest ih => exact ih
    | element name attributes content rest _ ih =>
      rw [Pool.parts, Content.elements, List.flatMap_cons, ← ih]
      rfl
  exact row element.content

end Markdown

end ApiPages
