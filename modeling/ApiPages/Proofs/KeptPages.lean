import ApiPages.Proofs.Dictionaries
import ApiPages.Proofs.PageFiles
import ApiPages.Proofs.PagePlaces

/-!
# Which pages are kept

A run that is done has written a page for every namespace, and no two of these have the same name.
But different names can spell the same place, and then the file there holds the page of the last of
these namespaces. So the pages of all namespaces are kept exactly if those that share a place are
equal, which is so when no namespace has a slash.
-/
namespace ApiPages

variable {output : Path} {preamble : Option Text} {pages : Dict Text} {before after : FileSystem}

/-- Every namespace finds its document in its file. -/
def KeepsPages (output : Path) (preamble : Option Text) (pages : Dict Text) (after : FileSystem) :
    Prop := ∀ space page, pages.get? space = some page →
  after.contents? (pageFile output space) = some (.text (pageDocument preamble space page))

/-- All pages are kept exactly if those that share a place are equal. -/
theorem keepsPages_iff
    (wrote : before.Wrote (pages.entries.map (pageWrite output preamble)) after) :
    KeepsPages output preamble pages after ↔
      ∀ first one second two, pages.get? first = some one → pages.get? second = some two →
        before.placeOf (pageFile output first) = before.placeOf (pageFile output second) →
        pageDocument preamble first one = pageDocument preamble second two := by
  have holds := wrote.contents?_iff
  simp only [List.forall_mem_map, Prod.forall, Dict.mem_entries_iff] at holds
  constructor
  · exact fun keeps first one second two early late =>
      holds.1 keeps first one early second two late
  · exact fun agree => holds.2 fun first one early second two late =>
      agree first one second two early late

/-- The file of a namespace holds the document of the last namespace with the same place. -/
theorem holds_last (wrote : before.Wrote (pages.entries.map (pageWrite output preamble)) after)
    {space page : Text} (listed : pages.get? space = some page) :
    ∃ last final, pages.get? last = some final ∧
      before.placeOf (pageFile output last) = before.placeOf (pageFile output space) ∧
      (∀ other ∈ pages.keys, last < other →
        before.placeOf (pageFile output other) ≠ before.placeOf (pageFile output space)) ∧
      after.contents? (pageFile output space) =
        some (.text (pageDocument preamble last final)) := by
  have among : pageWrite output preamble (space, page) ∈
      pages.entries.map (pageWrite output preamble) :=
    List.mem_map_of_mem (Dict.mem_entries_iff.2 listed)
  obtain ⟨text, found⟩ := FileSystem.lastAt_of_mem before among
  obtain ⟨front, write, back, split, same, rfl, latest⟩ := FileSystem.exists_of_lastAt found
  obtain ⟨earlier, others, entries, rfl, more⟩ := List.map_eq_append_iff.1 split
  obtain ⟨⟨last, final⟩, later, rfl, rfl, rfl⟩ := List.map_eq_cons_iff.1 more
  refine ⟨last, final, Dict.mem_entries_iff.1 (by simp [entries]), same, ?_, ?_⟩
  · intro other key above shared
    obtain ⟨entry, stands, rfl⟩ := List.mem_map.1 key
    -- The namespaces ascend, so a later one stands behind the last write.
    have sorted := pages.sorted
    rw [entries] at stands sorted
    obtain ⟨-, -, below⟩ := List.pairwise_append.1 sorted
    rcases List.mem_append.1 stands with front | back
    · exact List.lt_asymm above (below entry front _ List.mem_cons_self)
    · rcases List.mem_cons.1 back with rfl | behind
      · exact List.lt_irrefl _ above
      · exact latest _ (List.mem_map_of_mem behind) shared
  · have holds := wrote.contents?_eq among
    rw [found] at holds
    exact holds

/-- Distinct names without slashes have distinct places. -/
theorem pageName_eq_of_placeOf (system : FileSystem) (named : output ≠ []) {first second : Text}
    (early : '/' ∉ first) (late : '/' ∉ second)
    (same : system.placeOf (pageFile output first) = system.placeOf (pageFile output second)) :
    Markdown.pageName first = Markdown.pageName second := by
  rw [pageFile, pageFile, placeOf_pagePath_of_notMem system named (notMem_pageName early),
    placeOf_pagePath_of_notMem system named (notMem_pageName late)] at same
  exact List.append_cancel_right (List.head_eq_of_cons_eq (List.append_cancel_left same))

/-- Namespaces without slashes whose pages have distinct names have distinct places. -/
theorem nodup_places (system : FileSystem) (named : output ≠ []) {spaces : List Text}
    (distinct : (spaces.map Markdown.pageName).Nodup) (slashless : ∀ space ∈ spaces, '/' ∉ space) :
    (spaces.map fun space => system.placeOf (pageFile output space)).Nodup := by
  refine List.pairwise_map.2 ((List.pairwise_map.1 distinct).imp_of_mem ?_)
  intro first second early late other same
  exact other (pageName_eq_of_placeOf system named (slashless _ early) (slashless _ late) same)

/-- Namespaces with distinct places are all kept. -/
theorem keepsPages_of_nodup
    (wrote : before.Wrote (pages.entries.map (pageWrite output preamble)) after)
    (distinct : (pages.keys.map fun space => before.placeOf (pageFile output space)).Nodup) :
    KeepsPages output preamble pages after := by
  refine (keepsPages_iff wrote).2 fun first one second two early late same => ?_
  obtain rfl := List.inj_on_of_nodup_map distinct (Dict.mem_keys_of_get? early)
    (Dict.mem_keys_of_get? late) same
  rw [early] at late
  rw [Option.some.inj late]

/-- A run with input files that is done has distinct names for the pages of all namespaces, and the
file of a namespace holds the document of the last one whose file has the same place. So it keeps
the documents of all namespaces exactly if those whose files have the same place are equal, and it
keeps them all when no namespace has a slash. -/
theorem done_keepsPages_iff {arguments : List Text} {invocation : Invocation} {output : Path}
    {world after : World} (request : FileRequest arguments invocation output)
    (finished : (run World.host arguments).run world = (.done, after)) :
    ∃ options material prepared, invocation.options = .ok options ∧
      World.perform (gather World.host invocation output) world = (.ok material, prepared) ∧
      let pages := material.pages options
      let place (space : Text) := world.files.placeOf (pageFile output space)
      (pages.keys.map Markdown.pageName).Nodup ∧
      (∀ space ∈ pages.keys, ∃ last page, pages.get? last = some page ∧ place last = place space ∧
        (∀ other ∈ pages.keys, last < other → place other ≠ place space) ∧
        after.files.contents? (pageFile output space) =
          some (.text (pageDocument material.preamble last page))) ∧
      (KeepsPages output material.preamble pages after.files ↔
        ∀ first one second two, pages.get? first = some one → pages.get? second = some two →
          place first = place second →
          pageDocument material.preamble first one = pageDocument material.preamble second two) ∧
      ((∀ space ∈ material.namespaces.keys, '/' ∉ space) →
        KeepsPages output material.preamble pages after.files) := by
  rcases request.run_written world with ⟨failed, -⟩ | ⟨options, material, prepared, result, done,
      left, chosen, gathered, adds, -, ending, written⟩
  · exact absurd (congrArg Prod.fst finished) failed
  · have ok : result = .ok () := by
      rw [finished] at ending
      exact Ending.of_eq_done_iff.1 ending.symm
    subst ok
    rw [finished] at written
    obtain rfl := written.eq_of_ok
    have wrote := written.wrote
    refine ⟨options, material, prepared, chosen, gathered, ?_⟩
    have distinct : ((material.pages options).keys.map Markdown.pageName).Nodup := by
      simpa [Dict.keys, Function.comp_def] using written.distinct
    simp only [← adds.grows.placeOf_eq]
    refine ⟨distinct, fun space key => ?_, keepsPages_iff wrote, fun slashless => ?_⟩
    · obtain ⟨page, listed⟩ := Option.isSome_iff_exists.1 (Dict.mem_keys_iff.1 key)
      exact holds_last wrote listed
    · rw [← material.keys_pages options] at slashless
      exact keepsPages_of_nodup wrote
        (nodup_places prepared.files request.output_ne_nil distinct slashless)

set_option maxRecDepth 100000 in
/-- Two namespaces without slashes are kept. -/
theorem done_keepsPages_iff_of_two :
    let world := World.ofFiles [("a.xml",
      "<doc><members><member name=\"T:Shapes.Arc\"/><member name=\"T:Red\"/></members></doc>")] ""
    let output := "out".toList
    let invocation : Invocation := { inputs := ["a.xml".toList], output := some output }
    let arguments := ["-o".toList, output, "a.xml".toList]
    let after := ((run World.host arguments).run world).2
    FileRequest arguments invocation output ∧
    (run World.host arguments).run world = (.done, after) ∧
    ∃ options material prepared,
      World.perform (gather World.host invocation output) world = (.ok material, prepared) ∧
      material.namespaces.keys = [[], "Shapes".toList] ∧
      KeepsPages output material.preamble (material.pages options) after.files := by
  intro world output invocation arguments after
  have request : FileRequest arguments invocation output := ⟨by decide +kernel, by decide, rfl⟩
  have ending : ((run World.host arguments).run world).1 = .done := by decide +kernel
  have finished : (run World.host arguments).run world = (.done, after) := Prod.ext ending rfl
  have spaces : (World.perform (gather World.host invocation output) world).1.toOption.map
      (·.namespaces.keys) = some [[], "Shapes".toList] := by decide +kernel
  obtain ⟨options, material, prepared, -, gathered, -, -, -, slashless⟩ :=
    done_keepsPages_iff request finished
  rw [gathered] at spaces
  have keys : material.namespaces.keys = [[], "Shapes".toList] := Option.some.inj spaces
  refine ⟨request, finished, options, material, prepared, gathered, keys, slashless ?_⟩
  rw [keys]
  decide

set_option maxRecDepth 100000 in
/-- Of two namespaces that spell the same place with and without a dot, the first one loses its
document in a run that is done. -/
theorem done_loses_page_of_same_place :
    let world := World.ofFiles [("a.xml",
      "<doc><members><member name=\"T:A.X\"/><member name=\"T:./A.Y\"/></members></doc>")] ""
    let output := "out".toList
    let invocation : Invocation := { inputs := ["a.xml".toList], output := some output }
    let arguments := ["-o".toList, output, "a.xml".toList]
    let after := (run World.host arguments).run world
    FileRequest arguments invocation output ∧ after.1 = .done ∧
    ∃ material prepared,
      World.perform (gather World.host invocation output) world = (.ok material, prepared) ∧
      material.namespaces.keys = ["./A".toList, "A".toList] ∧
      ¬ KeepsPages output material.preamble (material.pages {}) after.2.files := by
  intro world output invocation arguments after
  refine ⟨⟨by decide +kernel, by decide, rfl⟩, by decide +kernel, ?_⟩
  have seen : (World.perform (gather World.host invocation output) world).1.toOption.map
      (fun material => (material.namespaces.keys, material.preamble,
        (material.pages {}).get? "./A".toList)) =
      some (["./A".toList, "A".toList], none,
        some "---\n#### Type: <a name=\"./a.y\"></a>Y\n\n\n\n".toList) := by decide +kernel
  have stored : after.2.files.contents? (pageFile output "./A".toList) =
      some (.text "---\n#### Type: <a name=\"a.x\"></a>X\n\n\n\n".toList) := by decide +kernel
  obtain ⟨material, prepared, gathered, observed⟩ := exists_ok_of_toOption seen
  obtain ⟨keys, preamble⟩ := Prod.mk.inj observed
  obtain ⟨plain, page⟩ := Prod.mk.inj preamble
  refine ⟨material, prepared, gathered, keys, fun keeps => ?_⟩
  have own := keeps _ _ page
  rw [stored, plain] at own
  exact absurd own (by decide)

end ApiPages
