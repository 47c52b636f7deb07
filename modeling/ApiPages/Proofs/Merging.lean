import ApiPages.Merge
import ApiPages.Proofs.Descendants
import ApiPages.Proofs.Dictionaries
import ApiPages.Proofs.Grouping

/-!
# Merged files

What a merge holds under a namespace is made of the documents that the files hold there: their
members one after the other and the first assembly among them. Since the walk through an element
is the walks through its children one after the other, documentation that is spread over several
files has the same members in the same order as if it stood in a single one.
-/
namespace ApiPages

namespace NamespaceDocument

/-- One document from those of several files, in the order of the files, if there are any. -/
def ofAll : List NamespaceDocument → Option NamespaceDocument
  | [] => none
  | documents => some ⟨documents.findSome? (·.assembly), documents.flatMap (·.members)⟩

/-- A document is made of itself alone. -/
@[simp]
theorem ofAll_toList (document : Option NamespaceDocument) : ofAll document.toList = document := by
  cases document with
  | none => rfl
  | some own =>
    obtain ⟨assembly, members⟩ := own
    cases assembly <;> simp [ofAll, List.findSome?]

/-- It does not matter whether the first ones have been made one before. -/
@[simp]
theorem ofAll_append (first later : List NamespaceDocument) :
    ofAll ((ofAll first).toList ++ later) = ofAll (first ++ later) := by
  cases first with
  | nil => rfl
  | cons head rest =>
    simp only [ofAll, Option.toList_some, List.cons_append, List.findSome?_cons,
      List.findSome?_append, List.flatMap_cons, List.flatMap_append, List.append_assoc]
    cases head.assembly <;> cases rest.findSome? (·.assembly) <;> rfl

/-- It does not matter whether the later ones have been made one before. -/
@[simp]
theorem ofAll_append_later (first later : List NamespaceDocument) :
    ofAll (first ++ (ofAll later).toList) = ofAll (first ++ later) := by
  cases first with
  | nil => rw [List.nil_append, List.nil_append, ofAll_toList]
  | cons head rest =>
    cases later with
    | nil => rfl
    | cons next others =>
      simp only [ofAll, Option.toList_some, List.cons_append, List.findSome?_append,
        List.findSome?_cons, List.findSome?_nil, List.flatMap_append, List.flatMap_cons,
        List.flatMap_nil, List.append_nil]
      cases next.assembly <;> cases others.findSome? (·.assembly) <;> rfl

/-- The document of two files is the merge of theirs. -/
theorem ofAll_pair (earlier later : NamespaceDocument) :
    ofAll [earlier, later] = some (earlier.merge later) := by
  cases first : earlier.assembly <;> cases second : later.assembly <;>
    simp [ofAll, NamespaceDocument.merge, List.findSome?, first, second]

end NamespaceDocument

namespace Namespaces

/-- What stands under a namespace after the document of some namespace has been joined. -/
theorem get?_add (merged : Namespaces) (key space : Text) (document : NamespaceDocument) :
    (merged.add (key, document)).get? space =
      NamespaceDocument.ofAll ((merged.get? space).toList ++
        (if space = key then [document] else [])) := by
  by_cases here : space = key
  · subst here
    rw [add, if_pos rfl]
    cases found : merged.get? space with
    | none => simpa [Dict.get?_insert] using (NamespaceDocument.ofAll_toList (some document)).symm
    | some earlier =>
      simpa [Dict.get?_insert] using (NamespaceDocument.ofAll_pair earlier document).symm
  · rw [add, if_neg here]
    cases found : merged.get? key <;> simp [Dict.get?_insert, here]

/-- What stands under a namespace after all documents of a file have been joined. -/
theorem get?_foldl_add (merged : Namespaces) {entries : List (Text × NamespaceDocument)}
    (sorted : entries.Pairwise fun left right => left.1 < right.1) (space : Text) :
    Dict.get? (entries.foldl add merged) space =
      NamespaceDocument.ofAll ((merged.get? space).toList ++ (Dict.find space entries).toList) := by
  induction entries generalizing merged with
  | nil => simp [Dict.find]
  | cons head rest ih =>
    obtain ⟨key, document⟩ := head
    obtain ⟨above, tail⟩ := List.pairwise_cons.1 sorted
    rw [List.foldl_cons, ih _ tail, get?_add, NamespaceDocument.ofAll_append]
    by_cases here : space = key
    · subst here
      -- The keys ascend, so the rest of the file says nothing more of this namespace.
      have absent : Dict.find space rest = none := by
        rw [Option.eq_none_iff_forall_ne_some]
        intro later found
        exact List.lt_irrefl _ (above (space, later) (Dict.mem_of_find found))
      simp [Dict.find, absent]
    · simp [here, Dict.find]

/-- What a merge holds under a namespace is made of what the files hold there. -/
theorem get?_merge (files : List (Text × Namespaces)) (space : Text) :
    (merge files).get? space =
      NamespaceDocument.ofAll (files.filterMap fun file => file.2.get? space) := by
  have further : ∀ merged : Namespaces,
      Dict.get? (files.foldl (fun merged file => addAll merged file.2) merged) space =
        NamespaceDocument.ofAll
          ((merged.get? space).toList ++ files.filterMap fun file => file.2.get? space) := by
    induction files with
    | nil => simp
    | cons file rest ih =>
      intro merged
      rw [List.foldl_cons, ih, addAll, get?_foldl_add merged file.2.sorted,
        NamespaceDocument.ofAll_append]
      cases found : file.2.get? space with
      | none => simp [found, show Dict.find space file.2.entries = none from found]
      | some document =>
        simp [found, show Dict.find space file.2.entries = some document from found]
  exact further .empty

/-- A single file is merged into what it holds. -/
theorem merge_single (source : Text) (namespaces : Namespaces) :
    merge [(source, namespaces)] = namespaces := by
  refine Dict.ext_get? fun space => ?_
  have own : [(source, namespaces)].filterMap (fun file => file.2.get? space) =
      (namespaces.get? space).toList := by
    cases found : namespaces.get? space <;> simp [found]
  rw [get?_merge, own, NamespaceDocument.ofAll_toList]

/-- A merge holds a namespace if one of the files does. -/
theorem mem_keys_merge_iff (files : List (Text × Namespaces)) (space : Text) :
    space ∈ (merge files).keys ↔ ∃ file ∈ files, space ∈ file.2.keys := by
  have nothing : ∀ documents, NamespaceDocument.ofAll documents = none ↔ documents = [] := by
    intro documents
    cases documents <;> simp [NamespaceDocument.ofAll]
  rw [← not_iff_not, Dict.mem_keys_iff, get?_merge, Option.not_isSome_iff_eq_none, nothing,
    List.filterMap_eq_nil_iff]
  simp [Dict.mem_keys_iff]

/-- The names of the files do not matter. -/
theorem merge_congr {files others : List (Text × Namespaces)}
    (same : others.map (·.2) = files.map (·.2)) : merge others = merge files := by
  have unnamed : ∀ files : List (Text × Namespaces),
      merge files = (files.map (·.2)).foldl addAll .empty := by
    intro files
    rw [merge, List.foldl_map]
  rw [unnamed, unnamed, same]

/-- The merges of two lists of files are merged into the merge of all files. -/
theorem merge_append (earlier later : List (Text × Namespaces)) (first second : Text) :
    merge (earlier ++ later) = merge [(first, merge earlier), (second, merge later)] := by
  refine Dict.ext_get? fun space => ?_
  have both : [(first, merge earlier), (second, merge later)].filterMap (·.2.get? space) =
      ((merge earlier).get? space).toList ++ ((merge later).get? space).toList := by
    cases one : (merge earlier).get? space <;> cases two : (merge later).get? space <;>
      simp [one, two]
  rw [get?_merge, get?_merge, both, get?_merge, get?_merge, List.filterMap_append,
    NamespaceDocument.ofAll_append, NamespaceDocument.ofAll_append_later]

/-- A merge unites the files and can be done in stages. It holds the namespaces that any of the
files holds; under each it has the members of all files that hold it, in the order of the files, and
the first assembly among them. It does not matter how the files are named. Merging the merges of two
parts of the list gives the same as merging the list at once, and a single file stays as it is. -/
theorem merge_unites (files : List (Text × Namespaces)) :
    (∀ space, space ∈ (merge files).keys ↔ ∃ file ∈ files, space ∈ file.2.keys) ∧
    (∀ space document, (merge files).get? space = some document →
      let documents := files.filterMap fun file => file.2.get? space
      document.members = documents.flatMap (·.members) ∧
        document.assembly = documents.findSome? (·.assembly)) ∧
    (∀ others : List (Text × Namespaces), others.map (·.2) = files.map (·.2) →
      merge others = merge files) ∧
    (∀ earlier later first second, files = earlier ++ later →
      merge files = merge [(first, merge earlier), (second, merge later)]) ∧
    ∀ source namespaces, merge [(source, namespaces)] = namespaces := by
  refine ⟨mem_keys_merge_iff files, fun space document found => ?_, fun others => merge_congr, ?_,
    merge_single⟩
  · rw [get?_merge] at found
    cases held : files.filterMap fun file => file.2.get? space with
    | nil => simp [held, NamespaceDocument.ofAll] at found
    | cons head rest =>
      rw [held, NamespaceDocument.ofAll, Option.some.injEq] at found
      · exact ⟨by rw [← found], by rw [← found]⟩
      · nofun
  · rintro earlier later first second rfl
    exact merge_append earlier later first second

/-- Three files, of which the first names no assembly for the namespace that all of them hold, are
merged in two stages under other names. -/
theorem merge_unites_of_three :
    let named (name : String) : Element :=
      ⟨"assembly".toList, .empty, .text name.toList .nil⟩
    let member (name : String) : Element :=
      ⟨"member".toList, .ofList [("name".toList, name.toList)], .nil⟩
    let first : Namespaces := .ofList [("Shapes".toList, ⟨none, [member "Circle"]⟩)]
    let second : Namespaces := .ofList [("Shapes".toList, ⟨some (named "Two"), [member "Pi"]⟩),
      ("Colours".toList, ⟨some (named "Two"), [member "Red"]⟩)]
    let third : Namespaces := .ofList [("Shapes".toList, ⟨some (named "Three"), [member "Circle"]⟩)]
    let files := [("a".toList, first), ("b".toList, second), ("c".toList, third)]
    let staged := merge [("x".toList, merge [("d".toList, first)]),
      ("y".toList, merge [("e".toList, second), ("f".toList, third)])]
    merge files = staged ∧
    ∃ document, staged.get? "Shapes".toList = some document ∧
      document.members = [member "Circle", member "Pi", member "Circle"] ∧
      document.assembly = some (named "Two") := by
  intro named member first second third files staged
  let renamed := [("d".toList, first), ("e".toList, second), ("f".toList, third)]
  obtain ⟨-, -, -, stages, -⟩ := merge_unites renamed
  obtain ⟨keys, documents, names, -, -⟩ := merge_unites files
  have same : merge files = staged :=
    (names renamed rfl).symm.trans (stages [("d".toList, first)] _ _ _ rfl)
  have held : "Shapes".toList ∈ (merge files).keys := (keys _).2 ⟨_, .head _, by decide⟩
  obtain ⟨document, found⟩ := Option.isSome_iff_exists.1 (Dict.mem_keys_iff.1 held)
  obtain ⟨members, assembly⟩ := documents _ _ found
  refine ⟨same, document, same ▸ found, ?_, ?_⟩
  · rw [members]
    decide
  · rw [assembly]
    decide

end Namespaces

/-- The members that a tree contributes to a namespace, corrected and in document order. -/
def Element.membersIn (root : Element) (space : Text) : List Element :=
  (root.descendantsNamed Names.member).filterMap (correctedIn space)

/-- Below an element whose children are not members themselves stand the members below these, one
child after the other. -/
theorem Element.membersIn_eq_flatMap {whole : Element} (space : Text)
    (others : ∀ child ∈ whole.children, child.name ≠ Names.member) :
    whole.membersIn space = whole.children.flatMap (·.membersIn space) := by
  rw [membersIn, descendantsNamed, Content.descendants_eq_flatMap, List.filter_flatMap,
    List.filterMap_flatMap]
  refine List.flatMap_congr fun child listed => ?_
  simp [membersIn, descendantsNamed, others child listed]

/-- What a tree says of a namespace: nothing, unless it contributes a member. -/
theorem correct_get?_eq (root : Element) (space : Text) :
    (correct root).1.get? space =
      if root.membersIn space = [] then none
      else some ⟨(root.childrenNamed Names.assembly).head?, root.membersIn space⟩ := by
  rw [correct_get?, Element.membersIn]
  cases (root.descendantsNamed Names.member).filterMap (correctedIn space) <;> rfl

/-- What a merge of corrected trees holds under a namespace: the members that the trees contribute,
and the first assembly of a tree that contributes any. -/
theorem get?_merge_correct (parts : List (Text × Element)) (space : Text) :
    (Namespaces.merge (parts.map fun part => (part.1, (correct part.2).1))).get? space =
      if parts.flatMap (·.2.membersIn space) = [] then none
      else some ⟨parts.findSome? fun part =>
          if part.2.membersIn space = [] then none
          else (part.2.childrenNamed Names.assembly).head?,
        parts.flatMap (·.2.membersIn space)⟩ := by
  let document (part : Text × Element) := (correct part.2).1.get? space
  have assembly : (parts.filterMap document).findSome? (·.assembly) =
      parts.findSome? fun part =>
        if part.2.membersIn space = [] then none
        else (part.2.childrenNamed Names.assembly).head? := by
    induction parts with
    | nil => rfl
    | cons part rest ih =>
      by_cases silent : part.2.membersIn space = []
      · simpa [document, correct_get?_eq, silent, List.findSome?_cons] using ih
      · simp [document, correct_get?_eq, silent, List.findSome?_cons, ← ih]
  have members : (parts.filterMap document).flatMap (·.members) =
      parts.flatMap (·.2.membersIn space) := by
    rw [List.filterMap_eq_flatMap_toList, List.flatMap_assoc]
    refine List.flatMap_congr fun part _ => ?_
    by_cases silent : part.2.membersIn space = [] <;> simp [document, correct_get?_eq, silent]
  have silent : parts.filterMap document = [] ↔ parts.flatMap (·.2.membersIn space) = [] := by
    simp [document, correct_get?_eq]
  rw [Namespaces.get?_merge, List.filterMap_map]
  change NamespaceDocument.ofAll (parts.filterMap document) = _
  rw [← members, ← assembly, members, if_congr silent.symm rfl rfl, ← members]
  cases parts.filterMap document <;> rfl

/-- Spreading documentation over several files changes no member. The trees of the files, none of
which is a member itself, are merged into the same namespaces with the same corrected members in
the same order as the tree that has them as its children. The assembly of a merged namespace is that
of the first tree that both contributes a member to it and has an assembly. -/
theorem merge_correct_parts {parts : List (Text × Element)} {whole : Element}
    (children : whole.children = parts.map (·.2))
    (others : ∀ part ∈ parts, part.2.name ≠ "member".toList) :
    let merged := Namespaces.merge (parts.map fun part => (part.1, (correct part.2).1))
    merged.mapValues (·.members) = (correct whole).1.mapValues (·.members) ∧
    ∀ space document, merged.get? space = some document →
      document.assembly = parts.findSome? fun part =>
        if part.2.membersIn space = [] then none
        else (part.2.childrenNamed "assembly".toList).head? := by
  intro merged
  have plain : ∀ child ∈ whole.children, child.name ≠ Names.member := by
    rw [children]
    exact List.forall_mem_map.2 others
  have walked : ∀ space, whole.membersIn space = parts.flatMap (·.2.membersIn space) := by
    intro space
    rw [Element.membersIn_eq_flatMap space plain, children, List.flatMap_map]
  constructor
  · apply Dict.ext_get?
    intro space
    rw [Dict.get?_mapValues, Dict.get?_mapValues, get?_merge_correct, correct_get?_eq, walked]
    by_cases silent : parts.flatMap (·.2.membersIn space) = []
    · rw [if_pos silent, if_pos silent]
    · rw [if_neg silent, if_neg silent]
      rfl
  · intro space document found
    rw [get?_merge_correct] at found
    split at found
    · cases found
    · obtain rfl := Option.some.inj found
      rfl

/-- Of three trees the first contributes to a namespace without an assembly and the second has an
assembly without contributing, so the assembly is that of the third. -/
theorem merge_correct_parts_of_three :
    let documented (name : String) : Node :=
      .element ⟨"member".toList, .ofList [("name".toList, name.toList)], .nil⟩
    let assembly (name : String) : Element := ⟨"assembly".toList, .empty, .text name.toList .nil⟩
    let tree (nodes : List Node) : Element := ⟨"doc".toList, .empty, .ofNodes nodes⟩
    let parts : List (Text × Element) :=
      [("a.xml".toList, tree [documented "T:Shapes.Circle"]),
        ("b.xml".toList, tree [.element (assembly "One"), documented "T:Colours.Red"]),
        ("c.xml".toList, tree [documented "F:Shapes.Circle.Pi", .element (assembly "Two")])]
    let whole := tree (parts.map fun part => .element part.2)
    let merged := Namespaces.merge (parts.map fun part => (part.1, (correct part.2).1))
    whole.children = parts.map (·.2) ∧ (∀ part ∈ parts, part.2.name ≠ "member".toList) ∧
    merged.mapValues (·.members) = (correct whole).1.mapValues (·.members) ∧
    ∃ document, merged.get? "Shapes".toList = some document ∧ document.members.length = 2 ∧
      document.assembly = some (assembly "Two") := by
  intro documented assembly tree parts whole merged
  have children : whole.children = parts.map (·.2) := rfl
  have others : ∀ part ∈ parts, part.2.name ≠ "member".toList := by decide
  obtain ⟨same, assemblies⟩ := merge_correct_parts children others
  have found : ∃ document, merged.get? "Shapes".toList = some document := ⟨_, rfl⟩
  obtain ⟨document, found⟩ := found
  have two : (merged.get? "Shapes".toList).map (·.members.length) = some 2 := by decide
  rw [found] at two
  refine ⟨children, others, same, document, found, Option.some.inj two, ?_⟩
  rw [assemblies _ _ found]
  decide

end ApiPages
