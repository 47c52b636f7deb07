import ApiPages.Proofs.PageAgreement
import ApiPages.Proofs.Reading
import ApiPages.Proofs.WhiteSpace

/-!
# Rows that are read alike

What is read of a text depends on the elements around it. Directly inside a member it is not read at
all, unless an element further out shows all text below it. Directly inside a parameter, and below
code samples and assemblies, it is read as it stands. Elsewhere it is read with its white space
collapsed. Rows in which texts have been exchanged within these bounds, and neighbouring texts
joined where no white space meets, are rendered to the same text, and trees that differ in this way
have the same pages.
-/
namespace ApiPages

/-- The elements that read all text below them, whatever stands in between. -/
def Names.readingAll : List Text :=
  [['c'], "code".toList, "see".toList, "seealso".toList, "assembly".toList]

/-- Whether two texts may stand for each other below elements of the given names, of which the
innermost is the first. -/
def TextsAgree (ancestors : List Text) (first second : Text) : Prop :=
  if ancestors.head? = some "member".toList ∧ ∀ name ∈ ancestors.tail, name ∉ Names.readingAll then
    True
  else if ancestors.head? = some "param".toList ∨ "code".toList ∈ ancestors ∨
      "assembly".toList ∈ ancestors then
    first = second
  else first.collapse = second.collapse

instance (ancestors : List Text) (first second : Text) :
    Decidable (TextsAgree ancestors first second) :=
  inferInstanceAs (Decidable (ite _ _ (ite _ _ _)))

namespace TextsAgree

variable {ancestors : List Text} {first second : Text}

/-- A text may stand for itself. -/
theorem refl (ancestors : List Text) (own : Text) : TextsAgree ancestors own own := by
  unfold TextsAgree
  split
  · trivial
  · split <;> rfl

/-- Texts that are not read at all stand below no element that reads all text. -/
theorem notMem_of_unread
    (unread : ancestors.head? = some "member".toList ∧
      ∀ name ∈ ancestors.tail, name ∉ Names.readingAll) :
    ∀ name ∈ ancestors, name ∉ Names.readingAll := by
  obtain ⟨innermost, others⟩ := unread
  obtain ⟨outer, rfl⟩ : ∃ outer, ancestors = "member".toList :: outer := by
    cases ancestors with
    | nil => simp at innermost
    | cons head outer => exact ⟨outer, by rw [Option.some.inj innermost]⟩
  exact List.forall_mem_cons.2 ⟨by decide, others⟩

/-- Texts that are read at all collapse to the same. -/
theorem collapse_eq (agree : TextsAgree ancestors first second)
    (read : ancestors.head? ≠ some "member".toList ∨ ∃ name ∈ ancestors, name ∈ Names.readingAll) :
    first.collapse = second.collapse := by
  unfold TextsAgree at agree
  split at agree
  · rename_i unread
    rcases read with other | ⟨name, around, reading⟩
    · exact absurd unread.1 other
    · exact absurd reading (notMem_of_unread unread name around)
  · split at agree
    · rw [agree]
    · exact agree

/-- Texts that are read as they stand are the same. -/
theorem eq_of_verbatim (agree : TextsAgree ancestors first second)
    (verbatim : ancestors.head? = some "param".toList ∨ "code".toList ∈ ancestors ∨
      "assembly".toList ∈ ancestors) : first = second := by
  unfold TextsAgree at agree
  split at agree
  · rename_i unread
    rcases verbatim with innermost | around | around
    · rw [unread.1] at innermost
      exact absurd innermost (by decide)
    · exact absurd (by decide) (notMem_of_unread unread _ around)
    · exact absurd (by decide) (notMem_of_unread unread _ around)
  · exact agree

/-- Texts agree all the more when elements further out are left aside. -/
theorem of_append (inner outer : List Text) (filled : inner ≠ [])
    (agree : TextsAgree (inner ++ outer) first second) : TextsAgree inner first second := by
  have innermost : (inner ++ outer).head? = inner.head? := by
    cases inner with
    | nil => exact absurd rfl filled
    | cons head rest => rfl
  unfold TextsAgree
  split
  · trivial
  · rename_i read
    split
    · rename_i verbatim
      refine agree.eq_of_verbatim ?_
      rw [innermost]
      exact verbatim.imp_right (Or.imp (List.mem_append_left _) (List.mem_append_left _))
    · refine agree.collapse_eq ?_
      rw [innermost]
      by_cases member : inner.head? = some "member".toList
      · obtain ⟨name, around, reading⟩ : ∃ name ∈ inner.tail, name ∈ Names.readingAll := by
          simpa [member] using read
        exact .inr ⟨name, List.mem_append_left _ (List.mem_of_mem_tail around), reading⟩
      · exact .inl member

end TextsAgree

namespace Content

/-- The second row is the first one with texts exchanged for others that agree with them, and with
neighbouring texts joined where no white space meets. -/
inductive Reflowed : (ancestors : List Text) → Content → Content → Prop where
  /-- There is nothing to change at the end. -/
  | nil {ancestors} : Reflowed ancestors nil nil
  /-- A text is exchanged. -/
  | text {ancestors first second rest rest'} (agree : TextsAgree ancestors first second)
      (others : Reflowed ancestors rest rest') :
      Reflowed ancestors (text first rest) (text second rest')
  /-- Two texts are joined, and changed further as one. -/
  | joined {ancestors first second rest row}
      (apart : ¬(first.getLast?.any Text.isSpace ∧ second.head?.any Text.isSpace))
      (others : Reflowed ancestors (text (first ++ second) rest) row) :
      Reflowed ancestors (text first (text second rest)) row
  /-- An element is changed inside. -/
  | element {ancestors name attributes content content' rest rest'}
      (inside : Reflowed (name :: ancestors) content content')
      (others : Reflowed ancestors rest rest') :
      Reflowed ancestors (element name attributes content rest)
        (element name attributes content' rest')

namespace Reflowed

variable {ancestors : List Text} {first second : Content}

/-- A row that is left as it is. -/
theorem refl (ancestors : List Text) (row : Content) : Reflowed ancestors row row := by
  induction row generalizing ancestors with
  | nil => exact .nil
  | text own rest ih => exact .text (.refl _ _) (ih _)
  | element name attributes content rest inner outer => exact .element (inner _) (outer _)

/-- A row may be changed all the more when elements further out are left aside. -/
theorem of_append (inner outer : List Text) (filled : inner ≠ [])
    (reflowed : Reflowed (inner ++ outer) first second) : Reflowed inner first second := by
  generalize around : inner ++ outer = ancestors at reflowed
  induction reflowed generalizing inner with
  | nil => exact .nil
  | text agree _ ih =>
    exact .text (.of_append inner outer filled (around ▸ agree)) (ih inner filled around)
  | joined apart _ ih => exact .joined apart (ih inner filled around)
  | @element found name _ _ _ _ _ _ _ inside others =>
    have deeper : name :: inner ++ outer = name :: found := by rw [List.cons_append, around]
    exact .element (inside (name :: inner) (by simp) deeper) (others inner filled around)

/-- Changing attributes on both sides leaves the rows related. -/
theorem mapAttributes (name : Text) (change : Dict Text → Dict Text)
    (reflowed : Reflowed ancestors first second) :
    Reflowed ancestors (first.mapAttributes name change) (second.mapAttributes name change) := by
  induction reflowed with
  | nil => exact .nil
  | text agree _ ih => exact .text agree ih
  | joined apart _ ih => exact .joined apart ih
  | element _ _ inside others => exact .element inside others

/-- What is listed of the elements of a row, if the same is listed of a changed element. -/
theorem flatMap_elements {α : Type} {list : Element → List α}
    (blind : ∀ {name attributes content content'}, Reflowed (name :: ancestors) content content' →
      list ⟨name, attributes, content⟩ = list ⟨name, attributes, content'⟩)
    (reflowed : Reflowed ancestors first second) :
    first.elements.flatMap list = second.elements.flatMap list := by
  induction reflowed with
  | nil => rfl
  | text _ _ ih => exact ih blind
  | joined _ _ ih => exact ih blind
  | element inside _ _ ih => rw [elements, elements, List.flatMap_cons, List.flatMap_cons,
      blind inside, ih blind]

/-- What is listed of all elements below a row, if the same is listed of a changed element. -/
theorem flatMap_descendants {α : Type} {list : Element → List α}
    (blind : ∀ {name attributes content content'}, Reflowed [name] content content' →
      list ⟨name, attributes, content⟩ = list ⟨name, attributes, content'⟩)
    (reflowed : Reflowed ancestors first second) :
    first.descendants.flatMap list = second.descendants.flatMap list := by
  induction reflowed with
  | nil => rfl
  | text _ _ ih => exact ih
  | joined _ _ ih => exact ih
  | @element ancestors name _ _ _ _ _ inside _ inner outer =>
    have alone := of_append [name] _ (by simp) inside
    rw [descendants, descendants, List.cons_append, List.cons_append, List.flatMap_cons,
      List.flatMap_cons, List.flatMap_append, List.flatMap_append, blind alone, inner, outer]

/-- The own text of a parameter is kept. -/
theorem ownText_eq (reflowed : Reflowed ancestors first second)
    (parameter : ancestors.head? = some "param".toList) : first.ownText = second.ownText := by
  induction reflowed with
  | nil => rfl
  | text agree _ ih => rw [ownText, ownText, agree.eq_of_verbatim (.inl parameter), ih parameter]
  | joined _ _ ih =>
    rw [← ih parameter]
    simp [ownText]
  | element _ _ _ ih => rw [ownText, ownText, ih parameter]

/-- All text below code samples and assemblies is kept. -/
theorem deepText_eq (reflowed : Reflowed ancestors first second)
    (verbatim : "code".toList ∈ ancestors ∨ "assembly".toList ∈ ancestors) :
    first.deepText = second.deepText := by
  induction reflowed with
  | nil => rfl
  | text agree _ ih => rw [deepText, deepText, agree.eq_of_verbatim (.inr verbatim), ih verbatim]
  | joined _ _ ih =>
    rw [← ih verbatim]
    simp [deepText]
  | element _ _ inner outer =>
    rw [deepText, deepText, outer verbatim,
      inner (verbatim.imp (List.mem_cons_of_mem _) (List.mem_cons_of_mem _))]

/-- All text below an element that reads it collapses to the same. -/
theorem collapse_deepText_eq (reflowed : Reflowed ancestors first second)
    (read : ∃ name ∈ ancestors, name ∈ Names.readingAll) :
    first.deepText.collapse = second.deepText.collapse := by
  induction reflowed with
  | nil => rfl
  | text agree _ ih => exact Text.collapse_append_congr (agree.collapse_eq (.inr read)) (ih read)
  | joined _ _ ih =>
    rw [← ih read]
    simp [deepText]
  | element _ _ inner outer =>
    obtain ⟨name, around, reading⟩ := read
    exact Text.collapse_append_congr (inner ⟨name, List.mem_cons_of_mem _ around, reading⟩)
      (outer ⟨name, around, reading⟩)

end Reflowed

end Content

namespace Element

/-- The elements of one name, with what is listed of each. -/
theorem map_childrenNamed {α : Type} (list : Element → α) (element : Element) (name : Text) :
    (element.childrenNamed name).map list =
      element.content.elements.flatMap fun child =>
        if child.name = name then [list child] else [] := by
  rw [childrenNamed, children]
  induction element.content.elements with
  | nil => rfl
  | cons head rest ih => by_cases here : head.name = name <;> simp [here, ih]

/-- The descendants of one name of which something is listed, with what it is. -/
theorem filterMap_descendantsNamed {α : Type} (list : Element → Option α) (element : Element)
    (name : Text) :
    (element.descendantsNamed name).filterMap list =
      element.content.descendants.flatMap fun found =>
        if found.name = name then (list found).toList else [] := by
  rw [descendantsNamed]
  induction element.content.descendants with
  | nil => rfl
  | cons head rest ih =>
    by_cases here : head.name = name
    · cases listed : list head <;> simp [here, listed, ih]
    · simp [here, ih]

end Element

namespace Content.Reflowed

open Markdown

variable {ancestors : List Text} {first second : Content}

/-- The elements of one name in changed rows, with what is the same of each. -/
theorem map_childrenNamed {α : Type} {list : Element → α} {own : Text} {attributes : Dict Text}
    (name : Text)
    (blind : ∀ {attributes content content'}, Reflowed (name :: ancestors) content content' →
      list ⟨name, attributes, content⟩ = list ⟨name, attributes, content'⟩)
    (reflowed : Reflowed ancestors first second) :
    ((⟨own, attributes, first⟩ : Element).childrenNamed name).map list =
      ((⟨own, attributes, second⟩ : Element).childrenNamed name).map list := by
  rw [Element.map_childrenNamed, Element.map_childrenNamed]
  refine reflowed.flatMap_elements fun {found _ _ _} inside => ?_
  by_cases here : found = name
  · subst here
    simp [blind inside]
  · simp [here]

/-- The same is read of an element when what is inside it is changed, given that the same is
rendered there. -/
theorem readAlike {options : Options} {name : Text} {attributes : Dict Text}
    (reflowed : Reflowed (name :: ancestors) first second)
    (children : Part.joinElements ((defaultPool options).parts first) =
      Part.joinElements ((defaultPool options).parts second))
    (mixed : name ≠ Names.member → Part.joinMixed ((defaultPool options).parts first) =
      Part.joinMixed ((defaultPool options).parts second)) :
    Subject.ReadAlike name
      ⟨options, ⟨name, attributes, first⟩, (defaultPool options).parts first⟩
      ⟨options, ⟨name, attributes, second⟩, (defaultPool options).parts second⟩ where
  newline := rfl
  attributes := rfl
  children := children
  mixed := mixed
  ownText parameter := reflowed.ownText_eq (by rw [parameter, List.head?_cons])
  deepText code := reflowed.deepText_eq (.inl (by rw [code]; exact List.mem_cons_self))
  label labelled := by
    have read : ∀ name ∈ labelledNames, name ∈ Names.readingAll := by decide
    exact congrArg Text.trim
      (reflowed.collapse_deepText_eq ⟨name, List.mem_cons_self, read name labelled⟩)
  assemblyName assembly := by
    subst assembly
    have named : ((⟨Names.assembly, attributes, first⟩ : Element).childrenNamed Names.name).map
        Element.deepText =
          ((⟨Names.assembly, attributes, second⟩ : Element).childrenNamed Names.name).map
            Element.deepText :=
      reflowed.map_childrenNamed Names.name fun inside =>
        inside.deepText_eq (.inr (List.mem_cons_of_mem _ List.mem_cons_self))
    simpa only [List.head?_map] using congrArg List.head? named

/-- The same is rendered in changed rows: of their elements, and of their mixed content, unless they
stand directly inside a member. -/
theorem parts_eq (options : Options) (reflowed : Reflowed ancestors first second) :
    Part.joinElements ((defaultPool options).parts first) =
        Part.joinElements ((defaultPool options).parts second) ∧
      (ancestors.head? ≠ some Names.member →
        Part.joinMixed ((defaultPool options).parts first) =
          Part.joinMixed ((defaultPool options).parts second)) := by
  induction reflowed with
  | nil => exact ⟨rfl, fun _ => rfl⟩
  | text agree _ ih =>
    refine ⟨ih.1, fun other => ?_⟩
    simp only [Pool.parts, Part.joinMixed, List.flatMap_cons] at ih ⊢
    rw [agree.collapse_eq (.inl other), ih.2 other]
  | joined apart _ ih =>
    refine ⟨ih.1, fun other => ?_⟩
    rw [← ih.2 other]
    simp [Pool.parts, Part.joinMixed, Text.collapse_append_of_apart apart]
  | @element _ name attributes content content' _ _ inside _ inner outer =>
    have same := settle_readAlike ⟨name, attributes, content⟩ ⟨name, attributes, content'⟩ rfl
      (inside.readAlike inner.1 fun other => inner.2 (by simpa using other))
    simp only [Pool.parts, Part.joinElements, Part.joinMixed, List.flatMap_cons] at outer ⊢
    rw [same]
    exact ⟨by rw [outer.1], fun other => by rw [outer.2 other]⟩

/-- An element renders to the same text when what is inside it is changed. -/
theorem render_eq (options : Options) (name : Text) (attributes : Dict Text)
    (reflowed : Reflowed (name :: ancestors) first second) :
    (defaultPool options).render ⟨name, attributes, first⟩ =
      (defaultPool options).render ⟨name, attributes, second⟩ := by
  obtain ⟨children, mixed⟩ := reflowed.parts_eq options
  have same := settle_readAlike ⟨name, attributes, first⟩ ⟨name, attributes, second⟩ rfl
    (reflowed.readAlike children fun other => mixed (by simpa using other))
  exact congrArg Outcome.text same

end Content.Reflowed

namespace Markdown

/-- A member shows the same when what is inside it is changed. -/
theorem shown?_reflowed (options : Options) {attributes : Dict Text} {content content' : Content}
    (reflowed : Content.Reflowed [Names.member] content content') :
    shown? (defaultPool options) ⟨Names.member, attributes, content⟩ =
      shown? (defaultPool options) ⟨Names.member, attributes, content'⟩ := by
  refine shown?_congr _ rfl ?_ fun stated =>
    (reflowed.mapAttributes Names.reference cutTarget).render_eq options Names.member stated
  have parameters : ((⟨Names.member, attributes, content⟩ : Element).childrenNamed
      Names.typeParameter).map (·.attribute? Names.name) =
        ((⟨Names.member, attributes, content'⟩ : Element).childrenNamed
          Names.typeParameter).map (·.attribute? Names.name) :=
    reflowed.map_childrenNamed Names.typeParameter fun _ => rfl
  simpa [typeParameters, List.filterMap_map, Function.comp_def] using
    congrArg (List.filterMap id) parameters

/-- Trees of which one is the other one changed inside have the same pages. -/
theorem pages_reflowed (options : Options) {first second : Element}
    (named : first.name = second.name)
    (reflowed : Content.Reflowed [first.name] first.content second.content) :
    pages options (correct first).1 = pages options (correct second).1 := by
  obtain ⟨name, attributes, content⟩ := first
  obtain ⟨_, attributes', content'⟩ := second
  obtain rfl := named
  refine pages_correct_congr options ?_ ?_
  · have titles : ((⟨name, attributes, content⟩ : Element).childrenNamed Names.assembly).map
        (defaultPool options).render =
          ((⟨name, attributes', content'⟩ : Element).childrenNamed Names.assembly).map
            (defaultPool options).render :=
      reflowed.map_childrenNamed Names.assembly fun inside =>
        inside.render_eq options Names.assembly _
    simpa only [List.head?_map] using congrArg List.head? titles
  · rw [Element.filterMap_descendantsNamed, Element.filterMap_descendantsNamed]
    refine reflowed.flatMap_descendants fun {found _ _ _} inside => ?_
    by_cases here : found = Names.member
    · subst here
      rw [if_pos rfl, if_pos rfl, shown?_reflowed options inside]
    · rw [if_neg here, if_neg here]

end Markdown

end ApiPages
