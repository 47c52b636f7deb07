import ApiPages.Correction
import ApiPages.Proofs.Place

/-!
# Grouping of members

The members below a root are corrected one after the other, and the collection of namespaces grows
with them. After every member the collection holds, under each namespace, exactly the corrected
members that belong to it, in the order in which they were met, and the rest have been reported.
So a correction neither loses, repeats, invents nor moves a member.
-/
namespace ApiPages

/-- What a member contributes to a namespace: its corrected form, if it belongs there. -/
def correctedIn (space : Text) (member : Element) : Option Element :=
  match correctMember member with
  | .ok (found, corrected) => if found = space then some corrected else none
  | .error _ => none

/-- Why a member is left out, if it is. -/
def skipReason? (member : Element) : Option IdentifierError :=
  match correctMember member with
  | .ok _ => none
  | .error error => some error

namespace Grouping

/-- What a grouping holds once some members have been corrected. -/
structure Covers (grouping : Grouping) (done : List Element) : Prop where
  /-- A namespace has the members that belong to it, in their order. -/
  placed : ∀ space, (grouping.members.get? space).getD [] = done.filterMap (correctedIn space)
  /-- No namespace is begun without a member. -/
  filled : ∀ space, grouping.members.get? space ≠ some []
  /-- Every other member is counted. -/
  counted : grouping.skipped = (done.filterMap skipReason?).length
  /-- Every other member is reported, in their order. -/
  reported : grouping.events = (done.filterMap skipReason?).map .memberSkipped

/-- The grouping that a correction starts with holds no member. -/
theorem covers_nil : Covers {} [] where
  placed _ := rfl
  filled space := by simp [Dict.get?, Dict.empty, Dict.find]
  counted := rfl
  reported := rfl

/-- One more member is put in its namespace or reported, and nothing else changes. -/
theorem Covers.add {grouping : Grouping} {done : List Element} (covers : grouping.Covers done)
    (member : Element) : (grouping.add member).Covers (done ++ [member]) := by
  cases outcome : correctMember member with
  | ok result =>
    obtain ⟨space, corrected⟩ := result
    have kept : skipReason? member = none := by simp [skipReason?, outcome]
    constructor
    · intro sought
      rw [Grouping.add, outcome, Dict.get?_push, List.filterMap_append]
      by_cases here : sought = space
      · subst here
        simp [covers.placed, correctedIn, outcome]
      · simp [here, covers.placed, correctedIn, outcome, Ne.symm here]
    · intro sought
      rw [Grouping.add, outcome, Dict.get?_push]
      by_cases here : sought = space
      · simp [here]
      · simpa [here] using covers.filled sought
    · simp [Grouping.add, outcome, kept, covers.counted]
    · simp [Grouping.add, outcome, kept, covers.reported]
  | error error =>
    have skipped : skipReason? member = some error := by simp [skipReason?, outcome]
    constructor
    · intro sought
      simp [Grouping.add, outcome, covers.placed, correctedIn]
    · intro sought
      simpa [Grouping.add, outcome] using covers.filled sought
    · simp [Grouping.add, outcome, skipped, covers.counted]
    · simp [Grouping.add, outcome, skipped, covers.reported]

/-- After any further members the grouping holds those too. -/
theorem Covers.addAll {grouping : Grouping} {done : List Element} (covers : grouping.Covers done)
    (later : List Element) : (grouping.addAll later).Covers (done ++ later) := by
  induction later generalizing grouping done with
  | nil => simpa [Grouping.addAll] using covers
  | cons head rest ih => simpa [Grouping.addAll] using ih (covers.add head)

/-- What stands under a namespace: nothing when no member belongs to it. -/
theorem Covers.get?_eq {grouping : Grouping} {done : List Element} (covers : grouping.Covers done)
    (space : Text) :
    grouping.members.get? space =
      match done.filterMap (correctedIn space) with
      | [] => none
      | placed => some placed := by
  rw [← covers.placed space]
  cases found : grouping.members.get? space with
  | none => rfl
  | some members =>
    cases members with
    | nil => exact absurd found (covers.filled space)
    | cons head rest => rfl

end Grouping

/-- The grouping of a whole tree holds all its members. -/
theorem correct_covers (root : Element) :
    (Grouping.addAll {} (root.descendantsNamed Names.member)).Covers
      (root.descendantsNamed Names.member) := by
  simpa using Grouping.covers_nil.addAll (root.descendantsNamed Names.member)

/-- The document of a namespace after a correction. -/
theorem correct_get? (root : Element) (space : Text) :
    (correct root).1.get? space =
      match (root.descendantsNamed Names.member).filterMap (correctedIn space) with
      | [] => none
      | placed => some ⟨(root.childrenNamed Names.assembly).head?, placed⟩ := by
  have found := (correct_covers root).get?_eq space
  rw [correct, Dict.get?_mapValues, found]
  cases (root.descendantsNamed Names.member).filterMap (correctedIn space) <;> rfl

/-- A member contributes to a namespace when it can be decoded and belongs there. -/
theorem correctedIn_eq_some_iff {space : Text} {member corrected : Element} :
    correctedIn space member = some corrected ↔
      correctMember member = .ok (space, corrected) := by
  cases outcome : correctMember member with
  | ok result => simp [correctedIn, outcome, Prod.ext_iff]
  | error error => simp [correctedIn, outcome]

/-- The namespaces of a correction are those of the members that can be decoded. -/
theorem mem_keys_correct_iff (root : Element) (space : Text) :
    space ∈ (correct root).1.keys ↔
      ∃ member ∈ root.descendantsNamed Names.member, ∃ corrected,
        correctMember member = .ok (space, corrected) := by
  have contributed : (∃ member ∈ root.descendantsNamed Names.member, ∃ corrected,
      correctMember member = .ok (space, corrected)) ↔
        (root.descendantsNamed Names.member).filterMap (correctedIn space) ≠ [] := by
    simp [← correctedIn_eq_some_iff, List.filterMap_eq_nil_iff, Option.ne_none_iff_exists']
  rw [contributed, Dict.mem_keys_iff, correct_get?]
  cases (root.descendantsNamed Names.member).filterMap (correctedIn space) <;> simp

/-- What a correction reports. -/
theorem correct_events (root : Element) :
    let reasons := (root.descendantsNamed Names.member).filterMap skipReason?
    (correct root).2 = .correctionStarted :: reasons.map .memberSkipped ++
      .correctionFinished (correct root).1.size reasons.length ::
        if (root.childrenNamed Names.assembly).head? = none then [.assemblyMissing] else [] := by
  have covers := correct_covers root
  simp [correct, covers.reported, covers.counted, Dict.size, Dict.mapValues]

/-- The line that reports a member that has been left out. -/
theorem line_memberSkipped (error : IdentifierError) :
    (Event.memberSkipped error).line = "WARN skipping member: ".toList ++ error.message := by
  have written : (Event.memberSkipped error).line =
      "WARN".toList ++ ' ' :: ("skipping member: ".toList ++ error.message) ++ [] := rfl
  rw [written]
  simp

/-- The line that reports that no assembly is named. -/
theorem line_assemblyMissing :
    Event.assemblyMissing.line = "INFO assembly element not found".toList := by
  have written : Event.assemblyMissing.line =
      "INFO".toList ++ ' ' :: "assembly element not found".toList ++ [] := rfl
  rw [written]
  simp

/-- What a correction reports above the details. -/
theorem correct_shown (root : Element) :
    (correct root).2.filter (·.shownAt .info) =
      ((root.descendantsNamed Names.member).filterMap skipReason?).map .memberSkipped ++
        if (root.childrenNamed Names.assembly).head? = none then [.assemblyMissing] else [] := by
  have started : Event.correctionStarted.shownAt .info = false := rfl
  have finished : ∀ namespaces skipped,
      (Event.correctionFinished namespaces skipped).shownAt .info = false := fun _ _ => rfl
  have skipped : ∀ errors : List IdentifierError,
      (errors.map Event.memberSkipped).filter (·.shownAt .info) = errors.map .memberSkipped := by
    intro errors
    refine List.filter_eq_self.2 fun event listed => ?_
    obtain ⟨error, _, rfl⟩ := List.mem_map.1 listed
    rfl
  have missing : Event.assemblyMissing.shownAt .info = true := rfl
  rw [correct_events]
  by_cases absent : (root.childrenNamed Names.assembly).head? = none
  · simp only [if_pos absent, List.cons_append, List.filter_cons, List.filter_append, skipped,
      started, finished, missing, if_true, Bool.false_eq_true, if_false, List.filter_nil]
  · simp only [if_neg absent, List.cons_append, List.filter_cons, List.filter_append, skipped,
      started, finished, Bool.false_eq_true, if_false, List.filter_nil]

/-- A correction neither loses, repeats, invents nor moves a member. The members it meets are the
elements at all places of the tree where one stands, in document order. Its namespaces are those of
the members that can be decoded; each has the corrected members that belong to it in that order,
with the first assembly at the top of the tree. Above the details, the log holds one line for every
other member, in that order, and one more when there is no assembly. -/
theorem correct_partitions (root : Element) :
    let members := root.descendantsNamed Names.member
    let assembly := (root.childrenNamed Names.assembly).head?
    (∃ places : List (List Nat), places.Pairwise (· < ·) ∧
      (∀ place, place ∈ places ↔ ∃ element,
        root.content.nodeAt? place = some (.element element) ∧ element.name = Names.member) ∧
      places.map root.content.nodeAt? = members.map fun member => some (.element member)) ∧
    (∀ space, space ∈ (correct root).1.keys ↔
      ∃ member ∈ members, ∃ corrected, correctMember member = .ok (space, corrected)) ∧
    (∀ space, (correct root).1.get? space =
      match members.filterMap (correctedIn space) with
      | [] => none
      | placed => some ⟨assembly, placed⟩) ∧
    ((correct root).2.filter (·.shownAt .info)).map Event.line =
      (members.filterMap skipReason?).map
          (fun error => "WARN skipping member: ".toList ++ error.message) ++
        if assembly = none then ["INFO assembly element not found".toList] else [] := by
  intro members assembly
  refine ⟨⟨root.content.placesNamed Names.member, Content.placesNamed_ascending _ _,
    fun _ => Content.mem_placesNamed_iff, Content.descendants_placesNamed _ _⟩,
    mem_keys_correct_iff root, correct_get? root, ?_⟩
  rw [correct_shown, List.map_append, List.map_map]
  congr 1
  · exact List.map_congr_left fun error _ => line_memberSkipped error
  · by_cases absent : (root.childrenNamed Names.assembly).head? = none
    · rw [if_pos absent, if_pos absent, List.map_singleton, line_assemblyMissing]
    · rw [if_neg absent, if_neg absent, List.map_nil]

end ApiPages
