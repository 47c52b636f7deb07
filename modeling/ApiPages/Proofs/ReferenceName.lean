import ApiPages.Proofs.DefaultPool
import ApiPages.Proofs.MemberCorrection
import ApiPages.Proofs.ShortReference
import ApiPages.Proofs.WhiteSpace

/-!
# Names shown by references

A reference without text is shown by the short form of its target, which the correction of the
member around it has cut at its first generic mark. The name that the target decodes to is shown
exactly when that mark does not precede the name: a member of a generic type is shown by the name
of the type.
-/
namespace ApiPages.Markdown

/-- A reference to a member that has neither an address, a keyword nor a text is shown by the short
form of its target. -/
theorem render_reference (options : Options) {found : Element} {target : Text}
    (named : found.name = Names.reference) (noAddress : found.attribute? address = none)
    (noKeyword : found.attribute? keyword = none) (noText : found.deepText.isBlank)
    (refers : found.attribute? Names.target = some target) :
    (defaultPool options).render found = span (shortReference target) := by
  have registered : (defaultPool options).renderers.get? found.name = some reference := by
    rw [named]
    exact defaultPool_reference options
  have unlabelled : label found = [] := Text.trim_collapse_of_isBlank noText
  rw [render_eq_of_renderer registered]
  simp only [reference, Subject.attribute?, noAddress, noKeyword, refers, unlabelled, if_true]
  rfl

/-- What a correction makes of a reference below the member. -/
theorem nodeAt?_of_reference {member corrected found : Element} {space : Text} {place : List Nat}
    (accepted : correctMember member = .ok (space, corrected))
    (placed : member.content.nodeAt? place = some (.element found))
    (named : found.name = Names.reference) :
    corrected.content.nodeAt? place = some (.element ⟨found.name, cutTarget found.attributes,
      found.content.mapAttributes Names.reference cutTarget⟩) := by
  rw [correctMember_eq] at accepted
  cases decoded : Identifier.decode ((member.attribute? Names.name).getD []) with
  | error error => simp [decoded, Except.map] at accepted
  | ok identifier =>
    simp only [decoded, Except.map, Except.ok.injEq, Prod.mk.injEq] at accepted
    obtain ⟨-, rfl⟩ := accepted
    rw [Content.nodeAt?_mapAttributes, placed]
    simp [Node.mapAttributes, named]

/-- A reference below a corrected member shows its target as far as the first generic mark. -/
theorem render_corrected_reference (options : Options) {member corrected found : Element}
    {space target : Text} {place : List Nat}
    (accepted : correctMember member = .ok (space, corrected))
    (placed : member.content.nodeAt? place = some (.element found))
    (named : found.name = Names.reference) (noAddress : found.attribute? address = none)
    (noKeyword : found.attribute? keyword = none) (noText : found.deepText.isBlank)
    (refers : found.attribute? Names.target = some target) :
    ∃ shown, corrected.content.nodeAt? place = some (.element shown) ∧
      (defaultPool options).render shown = span (shortReference (withoutArity target)) := by
  refine ⟨_, nodeAt?_of_reference accepted placed named, ?_⟩
  have other : ∀ key, key ≠ Names.target →
      (cutTarget found.attributes).get? key = found.attribute? key := by
    intro key apart
    rw [get?_cutTarget, if_neg apart]
    rfl
  have cut : (cutTarget found.attributes).get? Names.target = some (withoutArity target) := by
    rw [get?_cutTarget, if_pos rfl]
    exact congrArg (Option.map (Text.before genericMark)) refers
  apply render_reference options
  · exact named
  · exact (other address (by decide)).trans noAddress
  · exact (other keyword (by decide)).trans noKeyword
  · simpa [Element.deepText] using noText
  · exact cut

/-- Spans show different texts differently. -/
theorem span_inj {first second : Text} : span first = span second ↔ first = second := by
  simp [span]

/-- When a reference shows the name of what it refers to. The target is an identifier that can be
decoded and has at most one parameter list, at its end; the reference has no address, keyword or
text and stands anywhere below a member. Once the member has been corrected, the default pool shows
the part of the target that its first generic mark leaves, and this is the decoded name without its
mark exactly when that mark does not precede the name or something spelled like the name stands
before it. -/
theorem reference_shows_name_iff (options : Options) {member corrected found : Element}
    {space : Text} {place : List Nat} {kind path parameters : Text} {identifier : Identifier}
    (accepted : correctMember member = .ok (space, corrected))
    (placed : member.content.nodeAt? place = some (.element found))
    (named : found.name = "see".toList) (noAddress : found.attribute? "href".toList = none)
    (noKeyword : found.attribute? "langword".toList = none) (noText : found.deepText.isBlank)
    (refers : found.attribute? "cref".toList = some (kind ++ ':' :: (path ++ parameters)))
    (absent : ':' ∉ kind) (bare : path.IsBare) (listed : ParameterList parameters)
    (decoded : Identifier.decode (kind ++ ':' :: (path ++ parameters)) = .ok identifier) :
    ∃ (shown : Element) (spelling : Spelling),
      corrected.content.nodeAt? place = some (.element shown) ∧
      spelling.kind = kind ∧ spelling.path = path ∧ spelling.parameters = parameters ∧
      spelling.name = identifier.name ∧
      (defaultPool options).render shown = span spelling.shown ∧
      ((defaultPool options).render shown = span identifier.baseName ↔ spelling.KeepsName) := by
  obtain ⟨spelling, sameKind, samePath, sameParameters, sameName⟩ :=
    exists_spelling absent bare listed decoded
  have text : spelling.text = kind ++ ':' :: (path ++ parameters) := by
    rw [Spelling.text, sameKind, samePath, sameParameters]
  obtain ⟨shown, kept, rendered⟩ :=
    render_corrected_reference options accepted placed named noAddress noKeyword noText refers
  rw [← text, spelling.shortReference_cut] at rendered
  refine ⟨shown, spelling, kept, sameKind, samePath, sameParameters, sameName, rendered, ?_⟩
  rw [rendered, span_inj, Identifier.baseName, ← sameName]
  exact spelling.shown_eq_iff

/-- A type whose summary holds nothing but one reference. -/
def memberReferring (target : Text) : Element where
  name := Names.member
  attributes := .ofList [(Names.name, "T:Shapes.Circle".toList)]
  content := .element "summary".toList .empty
    (.element Names.reference (.ofList [(Names.target, target)]) .nil .nil) .nil

/-- A property of a generic type shows what its target decides. -/
theorem reference_shows_name_iff_of_generic_type :
    ∃ (corrected shown : Element) (spelling : Spelling),
      correctMember (memberReferring "P:Shapes.Collections.Bag`1.Count".toList) =
        .ok ("Shapes".toList, corrected) ∧
      corrected.content.nodeAt? [0, 0] = some (.element shown) ∧
      spelling.kind = ['P'] ∧ spelling.path = "Shapes.Collections.Bag`1.Count".toList ∧
      spelling.parameters = [] ∧ spelling.name = "Count".toList ∧
      (defaultPool {}).render shown = span spelling.shown ∧
      ((defaultPool {}).render shown = span "Count".toList ↔ spelling.KeepsName) := by
  have accepted : ∃ corrected, correctMember
      (memberReferring "P:Shapes.Collections.Bag`1.Count".toList) =
        .ok ("Shapes".toList, corrected) := ⟨_, rfl⟩
  obtain ⟨corrected, accepted⟩ := accepted
  have decoded : Identifier.decode "P:Shapes.Collections.Bag`1.Count".toList =
      .ok ⟨['P'], "Shapes.Collections".toList, "Count".toList⟩ := rfl
  have bare : Text.IsBare "Shapes.Collections.Bag`1.Count".toList := ⟨by decide, by decide⟩
  obtain ⟨shown, spelling, kept, kind, path, parameters, name, rendered, iff⟩ :=
    @reference_shows_name_iff {} _ corrected
      ⟨Names.reference, .ofList [(Names.target, "P:Shapes.Collections.Bag`1.Count".toList)], .nil⟩
      _ [0, 0] ['P'] "Shapes.Collections.Bag`1.Count".toList [] _ accepted rfl rfl rfl rfl rfl rfl
      (by decide) bare .none decoded
  exact ⟨corrected, shown, spelling, accepted, kept, kind, path, parameters, name, rendered, iff⟩

/-- A property of a generic type is shown by the name of the type and not by its own. -/
theorem reference_hides_name_of_generic_type :
    ∃ (corrected shown : Element) (identifier : Identifier),
      Identifier.decode "P:Shapes.Collections.Bag`1.Count".toList = .ok identifier ∧
      identifier.baseName = "Count".toList ∧
      correctMember (memberReferring "P:Shapes.Collections.Bag`1.Count".toList) =
        .ok ("Shapes".toList, corrected) ∧
      corrected.content.nodeAt? [0, 0] = some (.element shown) ∧
      (defaultPool {}).render shown = span "Bag".toList ∧
      (defaultPool {}).render shown ≠ span identifier.baseName := by
  refine ⟨_, _, _, rfl, rfl, rfl, rfl, rfl, ?_⟩
  decide

end ApiPages.Markdown
