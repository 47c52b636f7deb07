import Mathlib.Data.List.Sort
import ApiPages.Path

/-!
# Sorted paths

Paths are sorted by keys that are equal only for equal components, so all spellings of a path stand
side by side in a sorted list, and leaving the first of each gives a list that strictly ascends. So
the components in a sorted list without repetitions are decided by the set of paths that were
sorted, whatever their order and however often each of them occurs.
-/
namespace ApiPages

/-- Components with the same key are the same. -/
theorem Component.sortKey_injective : Function.Injective Component.sortKey := by
  have apart : Char.ofNat 0 ≠ Char.ofNat 1 ∧ Char.ofNat 0 ≠ Char.ofNat 2 ∧
      Char.ofNat 0 ≠ Char.ofNat 3 ∧ Char.ofNat 1 ≠ Char.ofNat 2 ∧
      Char.ofNat 1 ≠ Char.ofNat 3 ∧ Char.ofNat 2 ≠ Char.ofNat 3 := by decide
  intro first second same
  cases first <;> cases second <;> simp_all [sortKey]

namespace Path

/-- Paths with the same key have the same components. -/
theorem sortKey_eq_iff {first second : Path} :
    first.sortKey = second.sortKey ↔ first.components = second.components :=
  (List.map_injective_iff.2 Component.sortKey_injective).eq_iff

/-- One path precedes another if its key is not behind that of the other. -/
theorem precedes_iff {first second : Path} :
    precedes first second ↔ ¬ second.sortKey < first.sortKey := by
  rw [precedes, decide_eq_true_eq]

/-- A sorted list of paths ascends. -/
theorem ascending_mergeSort (paths : List Path) :
    (paths.mergeSort precedes).Pairwise fun first second =>
      ¬ second.sortKey < first.sortKey := by
  have transitive : ∀ first second third : Path,
      precedes first second → precedes second third → precedes first third := by
    intro first second third before behind
    rw [precedes_iff, List.not_lt] at before behind ⊢
    exact List.le_trans before behind
  have total : ∀ first second : Path, precedes first second || precedes second first := by
    intro first second
    rw [Bool.or_eq_true, precedes_iff, precedes_iff, List.not_lt, List.not_lt]
    exact List.le_total _ _
  have sorted := List.pairwise_mergeSort transitive total paths
  simpa only [precedes_iff] using sorted

/-- Leaving out repetitions invents no path. -/
theorem dropRepeats_subset (paths : List Path) : dropRepeats paths ⊆ paths := by
  fun_induction dropRepeats paths with
  | case1 => exact List.Subset.refl _
  | case2 path rest none ih => simp
  | case3 path rest next others kept same ih =>
    rw [kept] at ih
    exact List.cons_subset_cons _ (List.Subset.trans (List.subset_cons_self _ _) ih)
  | case4 path rest next others kept other ih =>
    rw [kept] at ih
    exact List.cons_subset_cons _ ih

/-- Leaving out repetitions keeps a spelling of every path. -/
theorem components_mem_dropRepeats {paths : List Path} :
    ∀ path ∈ paths, path.components ∈ (dropRepeats paths).map components := by
  fun_induction dropRepeats paths with
  | case1 => exact List.forall_mem_nil _
  | case2 path rest none ih =>
    rw [none] at ih
    refine List.forall_mem_cons.2 ⟨by simp, fun other later => ?_⟩
    exact absurd (ih other later) (by simp)
  | case3 path rest next others kept same ih =>
    rw [kept, List.map_cons, ← of_decide_eq_true same] at ih
    exact List.forall_mem_cons.2 ⟨List.mem_cons_self, ih⟩
  | case4 path rest next others kept other ih =>
    rw [kept] at ih
    exact List.forall_mem_cons.2
      ⟨List.mem_cons_self, fun later listed => List.mem_cons_of_mem _ (ih later listed)⟩

/-- An ascending list without its repetitions strictly ascends. -/
theorem ascending_dropRepeats {paths : List Path}
    (sorted : paths.Pairwise fun first second => ¬ second.sortKey < first.sortKey) :
    (dropRepeats paths).Pairwise fun first second => first.sortKey < second.sortKey := by
  fun_induction dropRepeats paths with
  | case1 => exact .nil
  | case2 path rest none ih => exact List.pairwise_singleton _ _
  | case3 path rest next others kept same ih =>
    obtain ⟨-, behind⟩ := List.pairwise_cons.1 sorted
    have ascending := ih behind
    rw [kept] at ascending
    obtain ⟨below, later⟩ := List.pairwise_cons.1 ascending
    have key : path.sortKey = next.sortKey := sortKey_eq_iff.2 (of_decide_eq_true same)
    exact List.pairwise_cons.2 ⟨key ▸ below, later⟩
  | case4 path rest next others kept other ih =>
    obtain ⟨before, behind⟩ := List.pairwise_cons.1 sorted
    have ascending := ih behind
    have among : next ∈ rest := dropRepeats_subset rest (kept ▸ List.mem_cons_self)
    rw [kept] at ascending
    obtain ⟨below, -⟩ := List.pairwise_cons.1 ascending
    have apart : path.sortKey ≠ next.sortKey := by
      intro key
      exact other (decide_eq_true (sortKey_eq_iff.1 key))
    have first : path.sortKey < next.sortKey := Decidable.of_not_not fun behind =>
      apart (List.le_antisymm (List.not_lt.1 (before next among)) (List.not_lt.1 behind))
    refine List.pairwise_cons.2 ⟨List.forall_mem_cons.2 ⟨first, fun later listed => ?_⟩, ascending⟩
    exact List.lt_trans first (below later listed)

/-- Sorting invents no path. -/
theorem sortUnique_subset (paths : List Path) : sortUnique paths ⊆ paths := fun _ kept =>
  List.mem_mergeSort.1 (dropRepeats_subset _ kept)

/-- The paths of a sorted list without repetitions are those that were sorted. -/
theorem mem_components_sortUnique {paths : List Path} {found : List Component} :
    found ∈ (sortUnique paths).map components ↔ found ∈ paths.map components := by
  constructor
  · intro listed
    obtain ⟨path, kept, rfl⟩ := List.mem_map.1 listed
    exact List.mem_map_of_mem (sortUnique_subset paths kept)
  · intro listed
    obtain ⟨path, own, rfl⟩ := List.mem_map.1 listed
    exact components_mem_dropRepeats path (List.mem_mergeSort.2 own)

/-- Lists of the same paths are sorted to the same list, up to the spelling of each path. -/
theorem sortUnique_congr {first second : List Path}
    (same : ∀ found, found ∈ first.map components ↔ found ∈ second.map components) :
    (sortUnique first).map components = (sortUnique second).map components := by
  let below (one two : List Component) : Prop :=
    one.map Component.sortKey < two.map Component.sortKey
  have ascending : ∀ paths, ((sortUnique paths).map components).Pairwise below := fun paths =>
    List.pairwise_map.2 (ascending_dropRepeats (ascending_mergeSort paths))
  have irreflexive : Std.Irrefl below := ⟨fun _ => List.lt_irrefl _⟩
  have antisymmetric : Std.Antisymm below := ⟨fun _ _ less more => absurd more (List.lt_asymm less)⟩
  refine (ascending first).eq_of_mem_iff (ascending second) fun found => ?_
  rw [mem_components_sortUnique, mem_components_sortUnique, same]

end Path

end ApiPages
