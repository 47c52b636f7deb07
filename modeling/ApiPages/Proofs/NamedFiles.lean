import ApiPages.Merge
import ApiPages.Proofs.FileChanges
import ApiPages.Proofs.PathComponents
import ApiPages.Proofs.PathOrder

/-!
# Files that inputs name

An input that exists is a file, or a directory that stands for the documentation files directly
inside it. These files, and the documents in them, are told from what stands at the places of the
file system. They stay the same when directories and files of other kinds are added, as long as no
name in the file system has a slash: a listed name with a slash could lead on through a directory
that has just been made.
-/
namespace ApiPages.FileSystem

variable {system before after : FileSystem} {place found : Place} {name : Text}
  {directory input path : Path}

/-- No name of an entry has a slash, as no name in the file system of a machine can have one. -/
def Slashless (system : FileSystem) : Prop :=
  ∀ place name, system.at? (place ++ [name]) ≠ none → '/' ∉ name

/-- A file system is slashless if its entries are listed under names without slashes. -/
theorem slashless_of_entries (listed : ∀ entry ∈ system.entries, ∀ name ∈ entry.1, '/' ∉ name) :
    system.Slashless := by
  intro place name stands
  rw [at?, if_neg (by simp), ne_eq, Option.map_eq_none_iff, List.find?_eq_none] at stands
  push Not at stands
  obtain ⟨entry, among, same⟩ := stands
  refine listed entry among name ?_
  rw [of_decide_eq_true same]
  simp

/-- The names in a directory are those of the entries directly inside it. -/
theorem mem_namesIn_iff : name ∈ system.namesIn place ↔ system.at? (place ++ [name]) ≠ none := by
  rw [namesIn, List.mem_filterMap, at?, if_neg (by simp), ne_eq, Option.map_eq_none_iff,
    List.find?_eq_none]
  push Not
  constructor
  · rintro ⟨⟨inner, entry⟩, among, here⟩
    refine ⟨⟨inner, entry⟩, among, decide_eq_true ?_⟩
    cases last : inner.getLast? with
    | none => simp [last] at here
    | some own =>
      simp only [last] at here
      split at here
      · rename_i outer
        rw [← outer, ← Option.some.inj here]
        exact (List.dropLast_append_getLast? own last).symm
      · cases here
  · rintro ⟨⟨inner, entry⟩, among, here⟩
    refine ⟨⟨inner, entry⟩, among, ?_⟩
    obtain rfl : inner = place ++ [name] := of_decide_eq_true here
    simp

/-- What is found for a name in a directory is what stands there, unless the name or the path is too
long. -/
theorem find_join (opened : system.find directory = .existing place .directory)
    (slashless : '/' ∉ name) (component : Component.ofPiece? name = some (.entry name)) :
    system.find (directory.join name) =
      if maxPathSize < byteSize (directory.join name) ∨ maxNameSize < byteSize name then .blocked
      else .at (place ++ [name]) (system.at? (place ++ [name])) := by
  obtain ⟨leads, stands⟩ := leads_of_existing opened
  obtain ⟨named, -, followed⟩ := follow_of_find leads
  obtain ⟨-, filled, notHere, notUp⟩ := Component.of_ofPiece?_entry component
  have relative : Path.isAbsolute name = false := Path.isAbsolute_of_notMem slashless
  obtain ⟨front, joined⟩ := Path.exists_join_eq directory relative
  have reached : system.follow (system.start directory) directory.pieces =
      .existing place .directory := by
    rw [follow_of_grows (.refl system) followed, stands, Found.at]
  have start : system.start (directory.join name) = system.start directory := by
    rw [FileSystem.start, FileSystem.start, Path.isAbsolute_join named relative]
  have whole : directory.join name ≠ [] := by
    rw [joined]
    exact List.append_ne_nil_of_right_ne_nil _ filled
  have plain : asksDirectory (directory.join name) = false := by
    rw [asksDirectory, joined, List.getLast?_append_of_ne_nil _ filled, decide_eq_false_iff_not]
    exact fun slash => slashless (List.mem_of_getLast? slash)
  rw [find_eq, if_neg whole, start, Path.pieces_join relative,
    Path.pieces_of_notMem slashless filled, follow_append reached, follow, plain,
    if_neg (not_not.2 stands), if_neg notHere, if_neg notUp]
  by_cases long : maxPathSize < byteSize (directory.join name)
  · rw [if_pos long, if_pos (.inl long)]
  · rw [if_neg long]
    by_cases large : maxNameSize < byteSize name
    · rw [if_pos large, if_pos (.inr large)]
      rfl
    · rw [if_neg large, if_neg (not_or.2 ⟨long, large⟩)]
      cases inside : system.at? (place ++ [name]) with
      | none => simp only [inside, Found.at, Found.admitted]
      | some entry =>
        simp only [inside, follow]
        cases entry <;> rfl

/-- The files that an input names: itself, or the documentation files directly inside it. -/
def filesNamed (system : FileSystem) (input : Path) : List Path :=
  match system.kind? input with
  | some .file => [input]
  | some .directory =>
    (((system.entries? input).getD []).map input.join).filter fun path =>
      isSupported path ∧ system.kind? path = some .file
  | none => []

/-- The namespaces in a documentation file. -/
def document? (system : FileSystem) (path : Path) : Option Namespaces :=
  ((system.contents? path).bind Contents.text?).bind fun source =>
    (readSource path source).toOption.map fun root => (correct root).1

/-- The merged namespaces of all files that inputs name, if all of them can be read. -/
def merged? (system : FileSystem) (inputs : List Path) : Option Namespaces :=
  ((Path.sortUnique (inputs.flatMap system.filesNamed)).mapM system.document?).map fun documents =>
    documents.foldl Namespaces.addAll .empty

/-- A file is found where a file stands. -/
theorem exists_of_kind?_file (file : system.kind? path = some .file) :
    ∃ place contents, system.find path = .existing place (.file contents) := by
  rw [kind?] at file
  cases there : system.find path with
  | existing place entry =>
    cases entry with
    | file contents => exact ⟨place, contents, rfl⟩
    | directory => simp [there, Entry.kind] at file
  | vacant | missing | blocked => simp [there] at file

/-- A directory is found where a directory stands. -/
theorem exists_of_kind?_directory (opened : system.kind? path = some .directory) :
    ∃ place, system.find path = .existing place .directory := by
  rw [kind?] at opened
  cases there : system.find path with
  | existing place entry =>
    cases entry with
    | file contents => simp [there, Entry.kind] at opened
    | directory => exact ⟨place, rfl⟩
  | vacant | missing | blocked => simp [there] at opened

/-- A file names itself. -/
theorem filesNamed_of_file (file : system.kind? input = some .file) :
    system.filesNamed input = [input] := by
  rw [filesNamed, file]

/-- A directory names the documentation files directly inside it. -/
theorem mem_filesNamed_of_directory (opened : system.find input = .existing place .directory) :
    path ∈ system.filesNamed input ↔
      isSupported path ∧ system.kind? path = some .file ∧
        ∃ name, system.at? (place ++ [name]) ≠ none ∧ input.join name = path := by
  have kind : system.kind? input = some .directory := by
    rw [kind?, opened]
    rfl
  have names : system.entries? input = some (system.namesIn place) := by
    rw [entries?, opened]
  rw [filesNamed, kind]
  simp only [names, Option.getD_some, List.mem_filter, List.mem_map, mem_namesIn_iff,
    Bool.decide_and, Bool.decide_eq_true, Bool.and_eq_true, decide_eq_true_eq]
  constructor
  · rintro ⟨listed, supported, file⟩
    exact ⟨supported, file, listed⟩
  · rintro ⟨supported, file, listed⟩
    exact ⟨listed, supported, file⟩

/-- What an input names are files. -/
theorem kind?_of_mem_filesNamed (listed : path ∈ system.filesNamed input) :
    system.kind? path = some .file := by
  rcases own : system.kind? input with _ | _ | _
  · rw [filesNamed, own] at listed
    cases listed
  · rw [filesNamed_of_file own] at listed
    rwa [List.mem_singleton.1 listed]
  · obtain ⟨place, opened⟩ := exists_of_kind?_directory own
    exact ((mem_filesNamed_of_directory opened).1 listed).2.1

/-- A documentation file inside a directory has a name with the extension of one, and stands under
that name. -/
theorem source_of_join (opened : system.find directory = .existing place .directory)
    (slashless : '/' ∉ name) (supported : isSupported (directory.join name))
    (file : system.kind? (directory.join name) = some .file) :
    Path.extensionOf? name = some "xml".toList ∧
      Component.ofPiece? name = some (.entry name) := by
  have relative : Path.isAbsolute name = false := Path.isAbsolute_of_notMem slashless
  obtain ⟨ending, last, extension⟩ := Path.isSupported_iff.1 supported
  rw [Path.steps_join relative, Path.steps_of_notMem slashless] at last
  cases component : Component.ofPiece? name with
  | some own =>
    rw [component, Option.toList_some, List.getLast?_concat] at last
    obtain rfl := Option.some.inj last
    obtain ⟨rfl, -⟩ := Component.of_ofPiece?_entry component
    exact ⟨extension, rfl⟩
  | none =>
    -- The path leads back to the directory, where no file stands.
    obtain ⟨found, contents, there⟩ := exists_of_kind?_file file
    obtain ⟨leads, stands⟩ := leads_of_existing there
    obtain ⟨leads', stands'⟩ := leads_of_existing opened
    obtain ⟨named, -, -⟩ := follow_of_find leads'
    have same : found = place := by
      rw [eq_placeOf_of_find leads, eq_placeOf_of_find leads', placeOf_join system named relative,
        Path.resolve_pieces, Path.steps_of_notMem slashless, component]
      rfl
    rw [same, stands'] at stands
    cases stands

/-! ### Changes that keep the sources -/

/-- A file system grows without a change to any file that may be a source. -/
structure KeepsSources (before after : FileSystem) : Prop where
  /-- Nothing vanishes. -/
  grows : before.Grows after
  /-- The documentation files are the same and hold the same. -/
  sources : ∀ place name, Path.extensionOf? name = some "xml".toList → ∀ contents,
    after.at? (place ++ [name]) = some (.file contents) ↔
      before.at? (place ++ [name]) = some (.file contents)
  /-- The names that are added have no slash. -/
  names : ∀ place name, after.at? (place ++ [name]) ≠ none →
    before.at? (place ++ [name]) ≠ none ∨ '/' ∉ name

/-- Directories that are added change no source. -/
theorem AddsDirectories.keepsSources (adds : before.AddsDirectories after) :
    before.KeepsSources after :=
  ⟨adds.grows, fun place name _ => adds.files (place ++ [name]), adds.names⟩

/-- A directory is found where it was. -/
theorem Grows.find_directory (grows : before.Grows after)
    (opened : before.find path = .existing place .directory) :
    after.find path = .existing place .directory := by
  obtain ⟨leads, stands⟩ := leads_of_existing opened
  have kept := grows.directory stands
  rw [find_of_grows grows leads (.inr kept), kept, Found.at]

/-- What an existing path leads to stays of its kind. -/
theorem Grows.kind?_eq (grows : before.Grows after) {kind : Kind}
    (stands : before.kind? path = some kind) : after.kind? path = some kind := by
  cases kind with
  | file =>
    obtain ⟨place, contents, file⟩ := exists_of_kind?_file stands
    obtain ⟨leads, there⟩ := leads_of_existing file
    obtain ⟨later, kept, same⟩ := grows.kept there
    rw [kind?, find_of_grows grows leads (.inl (asksDirectory_of_find file)), kept]
    exact congrArg some same
  | directory =>
    obtain ⟨place, opened⟩ := exists_of_kind?_directory stands
    rw [kind?, grows.find_directory opened]
    rfl

/-- What exists goes on existing. -/
theorem Grows.isSome_kind? (grows : before.Grows after) (stands : (before.kind? path).isSome) :
    (after.kind? path).isSome := by
  obtain ⟨kind, own⟩ := Option.isSome_iff_exists.1 stands
  rw [grows.kind?_eq own]
  rfl

namespace KeepsSources

variable (keeps : before.KeepsSources after)
include keeps

/-- Two changes that keep the sources keep them together. -/
theorem trans {later : FileSystem} (next : after.KeepsSources later) :
    before.KeepsSources later where
  grows := keeps.grows.trans next.grows
  sources place name supported contents :=
    (next.sources place name supported contents).trans
      (keeps.sources place name supported contents)
  names place name stands := (next.names place name stands).elim (keeps.names place name) .inr

/-- The names of entries stay without slashes. -/
theorem slashless (clean : before.Slashless) : after.Slashless := by
  intro place name stands
  rcases keeps.names place name stands with old | new
  · exact clean place name old
  · exact new

/-- An input that exists names the same files as before. -/
theorem mem_filesNamed_iff (clean : before.Slashless) (stands : (before.kind? input).isSome) :
    path ∈ after.filesNamed input ↔ path ∈ before.filesNamed input := by
  obtain ⟨kind, own⟩ := Option.isSome_iff_exists.1 stands
  cases kind with
  | file => rw [filesNamed_of_file own, filesNamed_of_file (keeps.grows.kind?_eq own)]
  | directory =>
    obtain ⟨place, opened⟩ := exists_of_kind?_directory own
    have still := keeps.grows.find_directory opened
    rw [mem_filesNamed_of_directory opened, mem_filesNamed_of_directory still]
    constructor
    · rintro ⟨supported, file, name, listed, rfl⟩
      have plain := keeps.slashless clean place name listed
      obtain ⟨extension, component⟩ := source_of_join still plain supported file
      obtain ⟨found, contents, there⟩ := exists_of_kind?_file file
      have later := find_join still plain component
      have earlier := find_join opened plain component
      rw [there] at later
      split at later
      · cases later
      rename_i short
      have stands := congrArg Found.standing? later
      rw [Found.standing?_at] at stands
      have before := (keeps.sources place name extension contents).1 stands.symm
      rw [if_neg short, before, Found.at] at earlier
      refine ⟨supported, ?_, name, by simp [before], rfl⟩
      rw [kind?, earlier]
      rfl
    · rintro ⟨supported, file, name, listed, rfl⟩
      obtain ⟨entry, there⟩ := Option.ne_none_iff_exists'.1 listed
      obtain ⟨later, kept, -⟩ := keeps.grows.kept there
      exact ⟨supported, keeps.grows.kind?_eq file, name, by simp [kept], rfl⟩

/-- A file that was there holds the same document. -/
theorem document?_eq (stands : before.kind? path = some .file) :
    after.document? path = before.document? path := by
  rw [document?, document?]
  by_cases supported : isSupported path
  · obtain ⟨name, last, extension⟩ := Path.isSupported_iff.1 supported
    obtain ⟨place, contents, file⟩ := exists_of_kind?_file stands
    obtain ⟨leads, there⟩ := leads_of_existing file
    obtain ⟨outer, spelled⟩ := exists_placeOf_eq before last
    obtain rfl : place = outer ++ [name] := (eq_placeOf_of_find leads).trans spelled
    have kept := (keeps.sources outer name extension contents).2 there
    have still : after.find path = .existing (outer ++ [name]) (.file contents) := by
      rw [find_of_grows keeps.grows leads (.inl (asksDirectory_of_find file)), kept, Found.at]
    rw [contents?, contents?, still, file]
  · have unread : ∀ source, readSource path source = .error (.unsupported path) := fun source =>
      if_neg supported
    simp [unread, Except.toOption]

end KeepsSources

/-- Spellings of the same file hold the same document. -/
theorem document?_congr {first second : Path} (same : first.components = second.components)
    (one : system.kind? first = some .file) (two : system.kind? second = some .file) :
    system.document? first = system.document? second := by
  obtain ⟨place, contents, file⟩ := exists_of_kind?_file one
  obtain ⟨place', contents', file'⟩ := exists_of_kind?_file two
  obtain ⟨leads, there⟩ := leads_of_existing file
  obtain ⟨leads', there'⟩ := leads_of_existing file'
  have meet : place = place' := by
    rw [eq_placeOf_of_find leads, eq_placeOf_of_find leads', placeOf_congr system same]
  rw [meet, there'] at there
  have equal : contents = contents' := by simpa using there.symm
  have read : ∀ source,
      (readSource first source).toOption = (readSource second source).toOption := by
    intro source
    rw [readSource, readSource, Path.isSupported_congr same]
    split
    · cases Xml.read source <;> rfl
    · rfl
  rw [document?, document?, contents?, contents?, file, file', equal]
  simp only [read]

/-! ### Merged inputs -/

/-- Steps along two lists agree if the keys in the lists do and decide each step. -/
theorem mapM_congr_of_map {α β κ : Type} {key : α → κ} {read other : α → Option β}
    {first second : List α}
    (decides : ∀ one ∈ first, ∀ two ∈ second, key one = key two → read one = other two)
    (same : first.map key = second.map key) : first.mapM read = second.mapM other := by
  induction first generalizing second with
  | nil => rw [List.map_eq_nil_iff.1 same.symm, List.mapM_nil, List.mapM_nil]
  | cons one rest ih =>
    obtain ⟨two, others, rfl, here, later⟩ := List.map_eq_cons_iff.1 same.symm
    have own := decides one List.mem_cons_self two List.mem_cons_self here.symm
    have further := ih (fun one listed two listed' =>
      decides one (List.mem_cons_of_mem _ listed) two (List.mem_cons_of_mem _ listed')) later.symm
    rw [List.mapM_cons, List.mapM_cons, own, further]

/-- Inputs that name the same paths have the same merged namespaces, if spellings of one path hold
the same document. -/
theorem merged?_congr {first second : FileSystem} {one two : List Path}
    (same : ∀ found, found ∈ (one.flatMap first.filesNamed).map Path.components ↔
      found ∈ (two.flatMap second.filesNamed).map Path.components)
    (documents : ∀ path ∈ one.flatMap first.filesNamed, ∀ other ∈ two.flatMap second.filesNamed,
      path.components = other.components → first.document? path = second.document? other) :
    first.merged? one = second.merged? two := by
  have sorted := Path.sortUnique_congr same
  rw [merged?, merged?, mapM_congr_of_map (fun path listed other listed' =>
    documents path (Path.sortUnique_subset _ listed) other (Path.sortUnique_subset _ listed'))
    sorted]

/-- Inputs that named the same paths before have the same merged namespaces. -/
theorem KeepsSources.merged?_congr {one two : List Path} (keeps : before.KeepsSources after)
    (clean : before.Slashless) (stands : ∀ input ∈ one ++ two, (before.kind? input).isSome)
    (same : ∀ found, found ∈ (one.flatMap before.filesNamed).map Path.components ↔
      found ∈ (two.flatMap before.filesNamed).map Path.components) :
    after.merged? one = before.merged? two := by
  have names : ∀ path, path ∈ one.flatMap after.filesNamed ↔
      path ∈ one.flatMap before.filesNamed := by
    intro path
    simp only [List.mem_flatMap]
    exact exists_congr fun input => and_congr_right fun listed =>
      keeps.mem_filesNamed_iff clean (stands input (List.mem_append_left two listed))
  have file : ∀ {inputs : List Path} {path : Path}, path ∈ inputs.flatMap before.filesNamed →
      before.kind? path = some .file := by
    intro inputs path listed
    obtain ⟨input, -, own⟩ := List.mem_flatMap.1 listed
    exact kind?_of_mem_filesNamed own
  refine FileSystem.merged?_congr (fun found => ?_) fun path listed other listed' equal => ?_
  · rw [← same, List.mem_map, List.mem_map]
    exact exists_congr fun path => and_congr_left fun _ => names path
  · have own := file ((names path).1 listed)
    rw [keeps.document?_eq own, document?_congr equal own (file listed')]

/-- Inputs that exist have the same merged namespaces as before. -/
theorem KeepsSources.merged?_eq {inputs : List Path} (keeps : before.KeepsSources after)
    (clean : before.Slashless) (stands : ∀ input ∈ inputs, (before.kind? input).isSome) :
    after.merged? inputs = before.merged? inputs :=
  keeps.merged?_congr clean (fun input listed => stands input (by simpa using listed))
    fun _ => .rfl

end ApiPages.FileSystem
