import ApiPages.Proofs.Visit

/-!
# What a visit hands over and what it leaves

A visitor that changes attributes only is called on the descendants of one name that the tree has
before the visit, each once and in document order, also where one of them stands inside another.
The attributes that each call leaves are those of the same descendant after the visit. No other
node changes. The calls are put down by the visitor itself: a visitor with a record of its calls
is one more visitor, and keeping the record disturbs neither the state nor the tree.
-/
namespace ApiPages

/-- A visitor that may change the attributes of an element, but neither its name nor what it
holds. -/
def ChangesAttributesOnly {σ : Type} (visitor : σ → Element → σ × Edit) : Prop :=
  ∀ state found, let edit := (visitor state found).2
    edit.name = found.name ∧ edit.keepsContent = true ∧ edit.addedTexts = []

/-- A call of a visitor that changes attributes. -/
structure Call where
  /-- The element as it was handed over. -/
  handed : Element
  /-- The attributes that the call left it with. -/
  left : Dict Text

/-- A visitor that also puts down its calls, the latest one last. -/
def recorded {σ : Type} (visitor : σ → Element → σ × Edit) :
    σ × List Call → Element → (σ × List Call) × Edit
  | (state, calls), found =>
    let (next, edit) := visitor state found
    ((next, calls ++ [⟨found, edit.attributes⟩]), edit)

/-- Keeping a record changes nothing about what a visitor does to elements. -/
theorem ChangesAttributesOnly.recorded {σ : Type} {visitor : σ → Element → σ × Edit}
    (attributesOnly : ChangesAttributesOnly visitor) :
    ChangesAttributesOnly (recorded visitor) :=
  fun (state, _) found => attributesOnly state found

namespace Content

variable {σ : Type} {visitor : σ → Element → σ × Edit}

/-- A visit passes over an element of another name, goes on below it and then behind it. -/
theorem visit_of_ne {name found : Text} (apart : found ≠ name) (state : σ)
    (attributes : Dict Text) (content rest : Content) :
    (element found attributes content rest).visit name visitor state =
      let below := content.visit name visitor state
      let behind := rest.visit name visitor below.1
      (behind.1, element found attributes below.2 behind.2) := by
  simp [visit, apart, Edit.none, ofNodes]

/-- A visit hands over an element of its name and then goes on below it and behind it. -/
theorem visit_of_eq (attributesOnly : ChangesAttributesOnly visitor) (name : Text) (state : σ)
    (attributes : Dict Text) (content rest : Content) :
    (element name attributes content rest).visit name visitor state =
      let call := visitor state ⟨name, attributes, content⟩
      let below := content.visit name visitor call.1
      let behind := rest.visit name visitor below.1
      (behind.1, element name call.2.attributes below.2 behind.2) := by
  obtain ⟨kept, whole, bare⟩ := attributesOnly state ⟨name, attributes, content⟩
  simp [visit, kept, whole, bare, ofNodes]

/-- A visit passes its state through the descendants of its name in document order. -/
theorem state_visit (attributesOnly : ChangesAttributesOnly visitor) (name : Text)
    (content : Content) (state : σ) :
    (content.visit name visitor state).1 =
      (content.descendants.filter (·.name = name)).foldl
        (fun state found => (visitor state found).1) state := by
  induction content generalizing state with
  | nil => rfl
  | text own rest ih => exact ih state
  | element found attributes content rest inner outer =>
    by_cases here : found = name
    · subst here
      rw [visit_of_eq attributesOnly]
      simp [descendants, inner, outer]
    · rw [visit_of_ne here]
      simp [descendants, here, inner, outer]

/-- A row before and after a visit, with the calls that lead from one to the other in document
order. -/
inductive Visited (name : Text) : List Call → Content → Content → Prop where
  /-- Nothing is called at the end of a row. -/
  | nil : Visited name [] nil nil
  /-- A text stays. -/
  | text {calls : List Call} {rest rest' : Content} (own : Text)
      (behind : Visited name calls rest rest') :
      Visited name calls (text own rest) (text own rest')
  /-- An element of another name stays. -/
  | passed {found : Text} {inside after : List Call} {content content' rest rest' : Content}
      (apart : found ≠ name) (attributes : Dict Text)
      (below : Visited name inside content content') (behind : Visited name after rest rest') :
      Visited name (inside ++ after) (element found attributes content rest)
        (element found attributes content' rest')
  /-- An element of the name gets the attributes that its call leaves. -/
  | called {inside after : List Call} {content content' rest rest' : Content}
      (attributes left : Dict Text)
      (below : Visited name inside content content') (behind : Visited name after rest rest') :
      Visited name (⟨⟨name, attributes, content⟩, left⟩ :: inside ++ after)
        (element name attributes content rest) (element name left content' rest')

/-- What a visit puts down leads from the row to what the visit makes of it, and keeping the record
disturbs neither the state nor the row. -/
theorem visit_recorded (attributesOnly : ChangesAttributesOnly visitor) (name : Text)
    (content : Content) (state : σ) (before : List Call) :
    ∃ calls, Visited name calls content (content.visit name visitor state).2 ∧
      content.visit name (recorded visitor) (state, before) =
        (((content.visit name visitor state).1, before ++ calls),
          (content.visit name visitor state).2) := by
  -- State and record are arbitrary: below and behind an element they are what its call has left.
  induction content generalizing state before with
  | nil => exact ⟨[], .nil, by simp [visit]⟩
  | text own rest ih =>
    obtain ⟨calls, behind, run⟩ := ih state before
    exact ⟨calls, .text own behind, by simp [visit, run]⟩
  | element found attributes content rest inner outer =>
    by_cases here : found = name
    · subst here
      rcases call : visitor state ⟨found, attributes, content⟩ with ⟨next, edit⟩
      obtain ⟨inside, below, first⟩ :=
        inner next (before ++ [⟨⟨found, attributes, content⟩, edit.attributes⟩])
      obtain ⟨after, behind, second⟩ := outer (content.visit found visitor next).1
        (before ++ [⟨⟨found, attributes, content⟩, edit.attributes⟩] ++ inside)
      refine ⟨⟨⟨found, attributes, content⟩, edit.attributes⟩ :: inside ++ after, ?_, ?_⟩
      · rw [visit_of_eq attributesOnly, call]
        exact .called attributes edit.attributes below behind
      · rw [visit_of_eq attributesOnly.recorded, visit_of_eq attributesOnly]
        simp only [recorded, call, first, second]
        simp
    · obtain ⟨inside, below, first⟩ := inner state before
      obtain ⟨after, behind, second⟩ :=
        outer (content.visit name visitor state).1 (before ++ inside)
      refine ⟨inside ++ after, ?_, ?_⟩
      · rw [visit_of_ne here]
        exact .passed here attributes below behind
      · rw [visit_of_ne here, visit_of_ne here]
        simp [first, second]

namespace Visited

variable {name : Text} {calls : List Call} {content result : Content}

/-- The elements handed over are the descendants of the name, as they are before the visit. -/
theorem handed (visited : Visited name calls content result) :
    calls.map (·.handed) = content.descendants.filter (·.name = name) := by
  induction visited with
  | nil => rfl
  | text own _ ih => exact ih
  | passed apart attributes _ _ inner outer => simp [descendants, apart, inner, outer]
  | called attributes left _ _ inner outer => simp [descendants, inner, outer]

/-- The descendants of the name have the attributes that the calls left. -/
theorem left (visited : Visited name calls content result) :
    (result.descendants.filter (·.name = name)).map (·.attributes) = calls.map (·.left) := by
  induction visited with
  | nil => rfl
  | text own _ ih => exact ih
  | passed apart attributes _ _ inner outer => simp [descendants, apart, inner, outer]
  | called attributes left _ _ inner outer => simp [descendants, inner, outer]

end Visited

end Content

/-- How a node may change in a visit to elements of one name: a text not at all, and an element only
in its attributes, if it has that name. -/
inductive Node.Relabelled (name : Text) : Node → Node → Prop where
  /-- A text stays. -/
  | text (own : Text) : Relabelled name (.text own) (.text own)
  /-- An element keeps its name, and its attributes unless it has the name. -/
  | element {original visited : Element} (kept : visited.name = original.name)
      (attributes : original.name ≠ name → visited.attributes = original.attributes) :
      Relabelled name (.element original) (.element visited)

/-- Every place of a row keeps its node up to the attributes of elements of the name. -/
theorem Content.Visited.nodeAt? {name : Text} {calls : List Call} {content result : Content}
    (visited : Visited name calls content result) (place : List Nat) :
    Option.Rel (Node.Relabelled name) (content.nodeAt? place) (result.nodeAt? place) := by
  induction visited generalizing place with
  | nil => cases place <;> exact .none
  | text own _ behind =>
    match place with
    | [] | 0 :: _ :: _ => exact .none
    | [0] => exact .some (.text own)
    | (index + 1) :: others => exact behind (index :: others)
  | passed _ attributes _ _ below behind =>
    match place with
    | [] => exact .none
    | [0] => exact .some (.element rfl fun _ => rfl)
    | 0 :: index :: others => exact below (index :: others)
    | (index + 1) :: others => exact behind (index :: others)
  | called attributes left _ _ below behind =>
    match place with
    | [] => exact .none
    | [0] => exact .some (.element rfl fun other => absurd rfl other)
    | 0 :: index :: others => exact below (index :: others)
    | (index + 1) :: others => exact behind (index :: others)

/-- A visit whose visitor changes attributes only calls it on exactly the descendants of the name,
as they are before the visit, each once and in document order, and passes its state along them. A
visitor that puts down its calls leaves the same state and the same element. Afterwards each of
these descendants has the attributes that its call left, while every other node, every text and the
element itself stay as they were. -/
theorem visitDescendants_calls {σ : Type} (element : Element) (name : Text)
    (visitor : σ → Element → σ × Edit) (attributesOnly : ChangesAttributesOnly visitor)
    (start : σ) :
    let final := (element.visitDescendants name visitor start).1
    let result := (element.visitDescendants name visitor start).2
    final = (element.descendantsNamed name).foldl
        (fun state found => (visitor state found).1) start ∧
      ∃ calls, element.visitDescendants name (recorded visitor) (start, []) =
          ((final, calls), result) ∧
        calls.map (·.handed) = element.descendantsNamed name ∧
        (result.descendantsNamed name).map (·.attributes) = calls.map (·.left) ∧
        result.name = element.name ∧ result.attributes = element.attributes ∧
        ∀ place, Option.Rel (Node.Relabelled name) (element.content.nodeAt? place)
          (result.content.nodeAt? place) := by
  intro final result
  obtain ⟨calls, visited, run⟩ :=
    Content.visit_recorded attributesOnly name element.content start []
  refine ⟨Content.state_visit attributesOnly name element.content start, calls, ?_, visited.handed,
    visited.left, rfl, rfl, visited.nodeAt?⟩
  rw [Element.visitDescendants, run]
  rfl

/-- A visitor that numbers the references it is called on, in a reference that holds three: one that
holds another, and one in a paragraph. The root is not called, and the others are called with what
they hold before they are numbered. -/
theorem visitDescendants_calls_of_nested :
    let see := "see".toList
    let number := "number".toList
    let numbering : Nat → Element → Nat × Edit := fun count found =>
      (count + 1, { Edit.none found with
        attributes := found.attributes.insert number (Text.ofNat count) })
    let inner : Element := ⟨see, .empty, .text "x".toList .nil⟩
    let outer : Element := ⟨see, .ofList [(number, ['0'])], .ofNodes [.element inner]⟩
    let last : Element := ⟨see, .empty, .nil⟩
    let root : Element := ⟨see, .empty, .ofNodes [.element outer, .text "y".toList,
      .element ⟨"para".toList, .empty, .ofNodes [.element last]⟩]⟩
    ChangesAttributesOnly numbering ∧
    ∃ calls result, root.visitDescendants see (recorded numbering) (1, []) = ((4, calls), result) ∧
      calls.map (·.handed) = [outer, inner, last] ∧
      (result.descendantsNamed see).map (·.attribute? number) =
        [some ['1'], some ['2'], some ['3']] ∧
      result.attribute? number = none := by
  intro see number numbering inner outer last root
  have attributesOnly : ChangesAttributesOnly numbering := fun _ _ => ⟨rfl, rfl, rfl⟩
  obtain ⟨final, calls, run, handed, -, -, unnumbered, -⟩ :=
    visitDescendants_calls root see numbering attributesOnly 1
  have three : root.descendantsNamed see = [outer, inner, last] := by decide
  rw [three] at final handed
  rw [final] at run
  refine ⟨attributesOnly, calls, _, run, handed, by decide, ?_⟩
  rw [Element.attribute?, unnumbered]
  rfl

end ApiPages
