import ApiPages.Proofs.ReferenceName

/-!
# Cut targets and their short forms

A correction cuts the targets of some references at their first generic mark and leaves those of
others whole. Both are shown the same when that mark stands behind the kind and before any
parameter list: a final list begins behind the mark then, and nothing behind the mark is shown. What
the text looks like from the mark on does not matter, nor does a target without a mark.
-/
namespace ApiPages

/-- A target whose first generic mark, if it has one, stands neither in its kind nor behind an
opening parenthesis. -/
structure PlainlyMarked (target : Text) : Prop where
  /-- The kind, which ends at the first colon, holds no mark. -/
  kind : ∀ kind path, target = kind ++ ':' :: path → ':' ∉ kind → '\x60' ∉ kind
  /-- No parenthesis opens before the first mark. -/
  unopened : ∀ front back, target = front ++ '\x60' :: back → '\x60' ∉ front → '(' ∉ front

namespace PlainlyMarked

/-- Whether a target is marked plainly is seen where it is cut. -/
theorem iff_before {target : Text} :
    PlainlyMarked target ↔ (':' ∈ target → '\x60' ∉ target.before ':') ∧
      ('\x60' ∈ target → '(' ∉ target.before '\x60') := by
  constructor
  · refine fun plain => ⟨fun colon => ?_, fun marked => ?_⟩
    · obtain ⟨kind, path, rfl, first⟩ := List.eq_append_cons_of_mem colon
      rw [Text.before_append_cons first]
      exact plain.kind kind path rfl first
    · obtain ⟨front, back, rfl, first⟩ := List.eq_append_cons_of_mem marked
      rw [Text.before_append_cons first]
      exact plain.unopened front back rfl first
  · refine fun cut => ⟨?_, ?_⟩
    · rintro kind path rfl first
      rw [Text.before_append_cons first] at cut
      exact cut.1 (by simp)
    · rintro front back rfl first
      rw [Text.before_append_cons first] at cut
      exact cut.2 (by simp)

instance (target : Text) : Decidable (PlainlyMarked target) :=
  decidable_of_iff _ iff_before.symm

/-- A path is marked plainly if it follows a kind in a target that is. -/
theorem path {kind path : Text} (plain : PlainlyMarked (kind ++ ':' :: path)) (first : ':' ∉ kind) :
    ∀ front back, path = front ++ '\x60' :: back → '\x60' ∉ front → '(' ∉ front := by
  rintro front back rfl unmarked opened
  have behind : '\x60' ∉ kind ++ ':' :: front := by
    simp [plain.kind kind _ rfl first, unmarked]
  refine plain.unopened (kind ++ ':' :: front) back (by simp) behind ?_
  simp [opened]

end PlainlyMarked

namespace Markdown

/-- Parameters are looked for behind a text in which no parenthesis opens. -/
theorem withoutFinalParameters_append_of_notMem {front : Text} (closed : '(' ∉ front)
    (rest : Text) :
    withoutFinalParameters (front ++ rest) = front ++ withoutFinalParameters rest := by
  induction front with
  | nil => rfl
  | cons head others ih =>
    obtain ⟨here, later⟩ := not_or.1 (mt List.mem_cons.2 closed)
    rw [List.cons_append, withoutFinalParameters, if_neg fun open' => here open'.1.symm, ih later,
      List.cons_append]

/-- A path that is cut at its first mark has no parameters to lose, and one that is not loses them
behind the mark. -/
theorem withoutArity_withoutFinalParameters {path : Text}
    (unopened : ∀ front back, path = front ++ '\x60' :: back → '\x60' ∉ front → '(' ∉ front) :
    withoutArity (withoutFinalParameters (withoutArity path)) =
      withoutArity (withoutFinalParameters path) := by
  by_cases marked : genericMark ∈ path
  · obtain ⟨front, back, rfl, unmarked⟩ := List.eq_append_cons_of_mem marked
    have closed := unopened front back rfl unmarked
    have cut : ∀ rest, withoutArity (front ++ genericMark :: rest) = front :=
      Text.before_append_cons unmarked
    have bare : withoutFinalParameters front = front := by
      simpa [withoutFinalParameters] using withoutFinalParameters_append_of_notMem closed []
    have other : genericMark ≠ '(' := by decide
    -- What is taken off the whole path stands behind the mark, where the second cut takes it
    -- anyway.
    rw [cut, bare, withoutFinalParameters_append_of_notMem closed, withoutFinalParameters,
      if_neg fun open' => other open'.1, cut]
    exact Text.before_of_notMem unmarked
  · rw [show withoutArity path = path from Text.before_of_notMem marked]

/-- A target that is marked plainly has the same short form whether or not it has been cut. -/
theorem shortReference_withoutArity {target : Text} (plain : PlainlyMarked target) :
    shortReference (withoutArity target) = shortReference target := by
  by_cases colon : ':' ∈ target
  · obtain ⟨kind, path, rfl, first⟩ := List.eq_append_cons_of_mem colon
    have unmarked : genericMark ∉ kind ++ [':'] := by
      simpa [genericMark] using plain.kind kind path rfl first
    have cut : withoutArity (kind ++ ':' :: path) = kind ++ ':' :: withoutArity path := by
      simpa [withoutArity] using Text.before_append_of_notMem unmarked path
    rw [cut, shortReference, shortReference, referencePath_append first,
      referencePath_append first, withoutArity_withoutFinalParameters (plain.path first)]
  · have absent : ':' ∉ withoutArity target := fun member => colon (Text.mem_of_mem_before member)
    rw [shortReference, shortReference, referencePath_of_notMem absent,
      referencePath_of_notMem colon, withoutArity_withoutFinalParameters plain.unopened]

/-- A reference shows its label, its address, its keyword and the short form of its target, and
nothing else. -/
theorem reference_congr {first second : Subject}
    (addressed : first.attribute? address = second.attribute? address)
    (keyed : first.attribute? keyword = second.attribute? keyword)
    (refers : (first.attribute? Names.target).map shortReference =
      (second.attribute? Names.target).map shortReference)
    (labelled : label first.element = label second.element) :
    reference first = reference second := by
  simp only [reference, addressed, keyed, labelled]
  cases second.attribute? address with
  | some address => rfl
  | none =>
    cases second.attribute? keyword with
    | some keyword => rfl
    | none =>
      cases one : first.attribute? Names.target <;>
        cases other : second.attribute? Names.target <;> simp_all

/-- What a reference shows after its target has been cut is what the same reference shows under
another name, if the target is marked plainly. -/
theorem render_cutTarget (options : Options) {found : Element}
    (plain : ∀ target, found.attribute? Names.target = some target → PlainlyMarked target) :
    (defaultPool options).render ⟨Names.reference, cutTarget found.attributes,
        found.content.mapAttributes Names.reference cutTarget⟩ =
      (defaultPool options).render { found with name := "seealso".toList } := by
  have other : (defaultPool options).renderers.get? "seealso".toList = some reference := rfl
  rw [render_eq_of_renderer (defaultPool_reference options), render_eq_of_renderer other]
  refine congrArg (Option.getD · []) (reference_congr ?_ ?_ ?_ ?_)
  · exact (get?_cutTarget found.attributes address).trans (if_neg (by decide))
  · exact (get?_cutTarget found.attributes keyword).trans (if_neg (by decide))
  · change ((cutTarget found.attributes).get? Names.target).map shortReference =
      (found.attribute? Names.target).map shortReference
    rw [get?_cutTarget, if_pos rfl]
    change ((found.attribute? Names.target).map withoutArity).map shortReference = _
    cases refers : found.attribute? Names.target with
    | none => rfl
    | some target => exact congrArg some (shortReference_withoutArity (plain target refers))
  · simp [label, Element.deepText]

/-- A reference whose target a correction cuts and one whose target it leaves whole show the same.
Take any target that holds no generic mark before its first colon and no opening parenthesis before
its first generic mark: its short form is that of its part before the mark. So take any `see` at any
place below a member that is corrected, and let its target be such a text, if it has one. What the
correction makes of it is rendered by the default pool to the same text as a `seealso` with the
attributes and the content that the `see` had before. -/
theorem see_shown_as_seealso (options : Options) :
    (∀ target, PlainlyMarked target →
      shortReference (withoutArity target) = shortReference target) ∧
    ∀ {member corrected found : Element} {space : Text} {place : List Nat},
      correctMember member = .ok (space, corrected) →
      member.content.nodeAt? place = some (.element found) → found.name = "see".toList →
      (∀ target, found.attribute? "cref".toList = some target → PlainlyMarked target) →
      ∃ kept, corrected.content.nodeAt? place = some (.element kept) ∧ kept.name = "see".toList ∧
        (defaultPool options).render kept =
          (defaultPool options).render { found with name := "seealso".toList } := by
  refine ⟨fun _ => shortReference_withoutArity, ?_⟩
  intro member corrected found space place accepted placed named plain
  refine ⟨_, nodeAt?_of_reference accepted placed named, named, ?_⟩
  rw [named]
  exact render_cutTarget options plain

/-- A reference inside another one, whose target is broken over two lines in the middle of two lists
of parameters, one of which is not closed. -/
theorem see_shown_as_seealso_of_broken_target :
    let target := "M:Shapes.Grid`2.Cell(\n(System.Int32)".toList
    let inner : Element := ⟨Names.reference, .ofList [(Names.target, target)], .nil⟩
    let outer : Element := ⟨Names.reference, .empty, .ofNodes [.text ['\n'], .element inner]⟩
    let circle : Element := ⟨Names.member, .ofList [(Names.name, "T:Shapes.Circle".toList)],
      .ofNodes [.element outer]⟩
    PlainlyMarked target ∧
    ∃ corrected kept, correctMember circle = .ok ("Shapes".toList, corrected) ∧
      corrected.content.nodeAt? [0, 1] = some (.element kept) ∧
      (defaultPool {}).render kept = span "Grid".toList ∧
      (defaultPool {}).render { inner with name := "seealso".toList } = span "Grid".toList := by
  intro target inner outer circle
  have plain : PlainlyMarked target := by decide
  have accepted : ∃ corrected, correctMember circle = .ok ("Shapes".toList, corrected) := ⟨_, rfl⟩
  obtain ⟨corrected, accepted⟩ := accepted
  have placed : circle.content.nodeAt? [0, 1] = some (.element inner) := rfl
  have refers : inner.attribute? "cref".toList = some target := rfl
  obtain ⟨kept, remains, -, same⟩ := (see_shown_as_seealso {}).2 accepted placed rfl
    fun other found => Option.some.inj (refers.symm.trans found) ▸ plain
  have shown : (defaultPool {}).render { inner with name := "seealso".toList } =
      span "Grid".toList := by decide
  exact ⟨plain, corrected, kept, accepted, remains, same.trans shown, shown⟩

end Markdown

end ApiPages
