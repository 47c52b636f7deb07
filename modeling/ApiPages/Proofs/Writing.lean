import ApiPages.Proofs.FileChanges

/-!
# Rows of writes

After a row of writes every file that was written is found under its path, but two paths of the same
place share one file, which holds what was written to it last. Nothing else has changed.
-/
namespace ApiPages.FileSystem

variable {system before after : FileSystem} {writes : List (Path × Text)} {place : Place}
  {path : Path} {text : Text}

/-- The text that a row of writes puts at a place last, if it puts any there. -/
def lastAt (system : FileSystem) (writes : List (Path × Text)) (place : Place) : Option Text :=
  (writes.reverse.find? fun write => system.placeOf write.1 = place).map (·.2)

/-- The text that is put at a place last is that of a later write, or else that of the first one. -/
theorem lastAt_cons (system : FileSystem) (write : Path × Text) (writes : List (Path × Text))
    (place : Place) :
    system.lastAt (write :: writes) place =
      (system.lastAt writes place).or
        (if system.placeOf write.1 = place then some write.2 else none) := by
  rw [lastAt, List.reverse_cons, List.find?_append, lastAt]
  by_cases here : system.placeOf write.1 = place <;>
    cases writes.reverse.find? fun write => system.placeOf write.1 = place <;> simp [here]

/-- After the last write to a place none goes there. -/
theorem exists_of_lastAt (last : system.lastAt writes place = some text) :
    ∃ front write back, writes = front ++ write :: back ∧ system.placeOf write.1 = place ∧
      write.2 = text ∧ ∀ later ∈ back, system.placeOf later.1 ≠ place := by
  obtain ⟨write, found, rfl⟩ := Option.map_eq_some_iff.1 last
  obtain ⟨here, back, front, split, final⟩ := List.find?_eq_some_iff_append.1 found
  refine ⟨front.reverse, write, back.reverse, ?_, of_decide_eq_true here, rfl, ?_⟩
  · rw [← List.reverse_reverse writes, split]
    simp
  · intro later listed
    simpa using final later (List.mem_reverse.1 listed)

/-- Some write to a place is the last one. -/
theorem lastAt_of_mem (system : FileSystem) {write : Path × Text} (listed : write ∈ writes) :
    ∃ text, system.lastAt writes (system.placeOf write.1) = some text := by
  cases last : system.lastAt writes (system.placeOf write.1) with
  | some text => exact ⟨text, rfl⟩
  | none =>
    have absent := List.find?_eq_none.1 (Option.map_eq_none_iff.1 last) write
    exact absurd (decide_eq_true rfl) (absent (List.mem_reverse.2 listed))

/-- What a row of writes makes of a file system. -/
structure Wrote (before : FileSystem) (writes : List (Path × Text)) (after : FileSystem) :
    Prop where
  /-- Nothing vanishes. -/
  grows : before.Grows after
  /-- Every path that was written leads to its place, where it can be written again. -/
  target : ∀ write ∈ writes, after.target? write.1 = some (before.placeOf write.1)
  /-- A place holds what was last written to it, or else what it held before. -/
  stands : ∀ place, after.at? place =
    ((before.lastAt writes place).map fun text => .file (.text text)).or (before.at? place)

namespace Wrote

/-- No writes leave a file system as it is. -/
theorem nil (system : FileSystem) : system.Wrote [] system where
  grows := .refl system
  target := nofun
  stands _ := rfl

/-- What could be written before the row can be written after it. -/
theorem target?_eq (wrote : before.Wrote writes after) (target : before.target? path = some place) :
    after.target? path = some place := by
  refine target?_of_grows wrote.grows target ?_
  rw [wrote.stands]
  cases before.lastAt writes place with
  | none => exact (target?_eq_some_iff.1 target).2.2
  | some text => simp

/-- A write before others. -/
theorem cons (target : before.target? path = some place)
    (wrote : (before.put place (.file (.text text))).Wrote writes after) :
    before.Wrote ((path, text) :: writes) after := by
  have first := grows_of_target? target (.text text)
  obtain ⟨leads, -, free⟩ := target?_eq_some_iff.1 target
  have spelled : before.placeOf path = place := (eq_placeOf_of_find leads).symm
  have put := at?_put before (ne_nil_of_at?_ne free) (.file (.text text))
  have again : (before.put place (.file (.text text))).target? path = some place :=
    target?_of_grows first target (by simp [put])
  have same : (before.put place (.file (.text text))).lastAt writes = before.lastAt writes := by
    funext sought
    simp only [lastAt, first.placeOf_eq]
  refine ⟨first.trans wrote.grows, fun write listed => ?_, fun sought => ?_⟩
  · rcases List.mem_cons.1 listed with rfl | later
    · rw [spelled, wrote.target?_eq again]
    · rw [wrote.target write later, first.placeOf_eq]
  · rw [wrote.stands, same, put, lastAt_cons, spelled]
    cases before.lastAt writes sought with
    | some last => rfl
    | none =>
      by_cases here : sought = place
      · simp [here]
      · simp [here, Ne.symm here]

/-- A written file holds what was last written to its place. -/
theorem contents?_eq (wrote : before.Wrote writes after) {write : Path × Text}
    (listed : write ∈ writes) :
    after.contents? write.1 = (before.lastAt writes (before.placeOf write.1)).map .text := by
  obtain ⟨leads, -, -⟩ := target?_eq_some_iff.1 (wrote.target write listed)
  obtain ⟨text, last⟩ := lastAt_of_mem before listed
  rw [contents?, find_eq_at leads, wrote.stands, last]
  rfl

/-- Every file holds what was written to it exactly if paths of the same place were written with the
same text. -/
theorem contents?_iff (wrote : before.Wrote writes after) :
    (∀ write ∈ writes, after.contents? write.1 = some (.text write.2)) ↔
      ∀ first ∈ writes, ∀ second ∈ writes,
        before.placeOf first.1 = before.placeOf second.1 → first.2 = second.2 := by
  constructor
  · intro holds first early second late same
    have one := holds first early
    rw [wrote.contents?_eq early, same, ← wrote.contents?_eq late, holds second late] at one
    exact (Contents.text.inj (Option.some.inj one)).symm
  · intro agree write listed
    obtain ⟨text, last⟩ := lastAt_of_mem before listed
    obtain ⟨front, final, back, split, same, rfl, -⟩ := exists_of_lastAt last
    have among : final ∈ writes := by simp [split]
    rw [wrote.contents?_eq listed, last, agree final among write listed same]
    rfl

/-- What differs after the row stands at a place that was written. -/
theorem exists_of_at?_ne (wrote : before.Wrote writes after)
    (changed : after.at? place ≠ before.at? place) :
    ∃ write ∈ writes, before.placeOf write.1 = place := by
  cases last : before.lastAt writes place with
  | none =>
    refine absurd ?_ changed
    rw [wrote.stands, last]
    rfl
  | some text =>
    obtain ⟨front, write, back, split, same, -⟩ := exists_of_lastAt last
    exact ⟨write, by simp [split], same⟩

end Wrote

end ApiPages.FileSystem
