import Mathlib.Data.List.TakeWhile
import ApiPages.Host.FileSystem
import ApiPages.Proofs.Cutting

/-!
# Where paths lead

Since there are no links, the place to which a path leads is spelled by the path alone: every name
goes one step down, two dots go one step up, and what the file system holds decides only whether the
path leads there at all. A file system grows when directories are made in it and files are written;
it never loses an entry or turns it into one of another kind, so a path goes on leading where it
led.
-/
namespace ApiPages

namespace Place

/-- The place to which a piece leads from a place. -/
def step (place : Place) (piece : Text) : Place :=
  if piece = ['.'] then place else if piece = ['.', '.'] then place.dropLast else place ++ [piece]

/-- The place to which pieces lead from a place, one after the other. -/
def resolve (place : Place) (pieces : List Text) : Place := pieces.foldl step place

/-- Without pieces a place leads to itself. -/
@[simp]
theorem resolve_nil (place : Place) : resolve place [] = place := rfl

/-- The first piece leads to where the others start. -/
@[simp]
theorem resolve_cons (place : Place) (piece : Text) (rest : List Text) :
    resolve place (piece :: rest) = resolve (step place piece) rest := rfl

/-- Joined pieces lead on from where the first ones lead. -/
theorem resolve_append (place : Place) (first second : List Text) :
    resolve place (first ++ second) = resolve (resolve place first) second :=
  List.foldl_append

end Place

namespace Path

/-- The pieces of a path between its slashes. -/
def pieces (path : Path) : List Text := (path.splitOn '/').filter (· ≠ [])

/-- A path without a slash is a single piece. -/
theorem pieces_of_notMem {path : Path} (slashless : '/' ∉ path) (named : path ≠ []) :
    pieces path = [path] := by
  rw [pieces, List.splitOn_eq_singleton slashless]
  simp [named]

/-- The pieces of a path have no slash. -/
theorem notMem_of_mem_pieces {path : Path} : ∀ piece ∈ path.pieces, '/' ∉ piece := by
  intro piece listed
  exact Text.notMem_of_mem_splitOn piece (List.mem_filter.1 listed).1

/-- What follows a slash adds its pieces to those before. -/
theorem pieces_append_cons (first second : Path) :
    pieces (first ++ '/' :: second) = pieces first ++ pieces second := by
  rw [pieces, List.splitOn_append_cons_self, List.filter_append, pieces, pieces]

/-- The pieces of a path inside another one. -/
theorem pieces_join {outer inner : Path} (relative : inner.isAbsolute = false) :
    pieces (outer.join inner) = pieces outer ++ pieces inner := by
  rw [join, if_neg (by simp [relative])]
  split
  · rename_i joint
    rcases joint with rfl | slash
    · simp [pieces]
    · obtain ⟨front, rfl⟩ := List.getLast?_eq_some_iff.1 slash
      have closed := pieces_append_cons front []
      rw [List.append_assoc, List.singleton_append, pieces_append_cons, closed]
      simp [pieces]
  · exact pieces_append_cons outer inner

/-- A joined path is absolute if its outer part is. -/
theorem isAbsolute_join {outer inner : Path} (named : outer ≠ [])
    (relative : inner.isAbsolute = false) :
    (outer.join inner).isAbsolute = outer.isAbsolute := by
  cases outer with
  | nil => exact absurd rfl named
  | cons head rest =>
    rw [join, if_neg (by simp [relative])]
    split <;> simp [isAbsolute]

end Path

namespace FileSystem

variable {system before after : FileSystem} {place found : Place} {pieces : List Text}

/-- The place of what is found, whether it exists or could be made. -/
def Found.place? : Found → Option Place
  | existing place _ | vacant place => some place
  | missing | blocked => none

/-- What is found at a place, given what stands there. -/
def Found.at (place : Place) : Option Entry → Found
  | some entry => existing place entry
  | none => vacant place

/-- The entry that is found, if it exists. -/
def Found.standing? : Found → Option Entry
  | existing _ entry => some entry
  | vacant _ | missing | blocked => none

/-- What is found at a place is at that place. -/
@[simp]
theorem Found.place?_at (place : Place) (entry : Option Entry) :
    (Found.at place entry).place? = some place := by
  cases entry <;> rfl

/-- What is found at a place is the entry there. -/
@[simp]
theorem Found.standing?_at (place : Place) (entry : Option Entry) :
    (Found.at place entry).standing? = entry := by
  cases entry <;> rfl

/-- Pieces lead to the place that they spell. -/
theorem eq_resolve_of_follow (leads : (system.follow place pieces).place? = some found) :
    found = place.resolve pieces := by
  fun_induction follow system place pieces with
  | case1 place entry stands => simpa [Found.place?, eq_comm] using leads
  | case2 | case3 | case6 | case9 => simp [Found.place?] at leads
  | case4 place rest opened ih => simpa [Place.step] using ih leads
  | case5 place rest opened notHere ih => simpa [Place.step] using ih leads
  | case7 place piece rest opened notHere notUp short inner entry stands ih =>
    simpa [Place.step, notHere, notUp] using ih leads
  | case8 place piece opened notHere notUp short inner empty =>
    simpa [Place.step, notHere, notUp, Found.place?, eq_comm] using leads

/-- What pieces lead to without finding it has the name of a piece. -/
theorem exists_of_vacant (leads : system.follow place pieces = .vacant found) :
    ∃ outer, ∃ piece ∈ pieces, found = outer ++ [piece] := by
  fun_induction follow system place pieces with
  | case1 | case2 | case3 | case6 | case9 => cases leads
  | case4 place rest opened ih =>
    obtain ⟨outer, piece, listed, same⟩ := ih leads
    exact ⟨outer, piece, List.mem_cons_of_mem _ listed, same⟩
  | case5 place rest opened notHere ih =>
    obtain ⟨outer, piece, listed, same⟩ := ih leads
    exact ⟨outer, piece, List.mem_cons_of_mem _ listed, same⟩
  | case7 place piece rest opened notHere notUp short inner entry stands ih =>
    obtain ⟨outer, later, listed, same⟩ := ih leads
    exact ⟨outer, later, List.mem_cons_of_mem _ listed, same⟩
  | case8 place piece opened notHere notUp short inner empty =>
    obtain rfl := Found.vacant.inj leads
    exact ⟨place, piece, List.mem_cons_self, rfl⟩

/-- Pieces that lead to an entry go on from there. -/
theorem follow_append {entry : Entry} (reached : system.follow place pieces = .existing found entry)
    (rest : List Text) : system.follow place (pieces ++ rest) = system.follow found rest := by
  fun_induction follow system place pieces with
  | case1 place own stands =>
    obtain ⟨rfl, -⟩ := Found.existing.inj reached
    rfl
  | case2 | case3 | case6 | case8 | case9 => cases reached
  | case4 place others opened ih =>
    rw [List.cons_append, follow, if_neg opened, if_pos rfl, ih reached]
  | case5 place others opened notHere ih =>
    rw [List.cons_append, follow, if_neg opened, if_neg notHere, if_pos rfl, ih reached]
  | case7 place piece others opened notHere notUp short inner own stands ih =>
    rw [List.cons_append, follow, if_neg opened, if_neg notHere, if_neg notUp, if_neg short]
    simp only [inner, stands, ih reached]

/-- A file system grows when nothing in it vanishes or becomes an entry of another kind. -/
structure Grows (before after : FileSystem) : Prop where
  /-- The working directory stays. -/
  working : after.working = before.working
  /-- Every entry stays one of its kind. -/
  kept : ∀ {place entry}, before.at? place = some entry →
    ∃ later, after.at? place = some later ∧ later.kind = entry.kind

namespace Grows

/-- A file system that stays as it is grows. -/
theorem refl (system : FileSystem) : system.Grows system :=
  ⟨rfl, fun stands => ⟨_, stands, rfl⟩⟩

/-- What grows in two stages grows in one. -/
theorem trans {middle : FileSystem} (first : before.Grows middle) (second : middle.Grows after) :
    before.Grows after := by
  refine ⟨second.working.trans first.working, fun stands => ?_⟩
  obtain ⟨_, stands, kind⟩ := first.kept stands
  obtain ⟨later, stands, same⟩ := second.kept stands
  exact ⟨later, stands, same.trans kind⟩

/-- A directory stays a directory. -/
theorem directory (grows : before.Grows after) (opened : before.at? place = some .directory) :
    after.at? place = some .directory := by
  obtain ⟨later, stands, kind⟩ := grows.kept opened
  cases later with
  | file contents => cases kind
  | directory => exact stands

end Grows

/-- What pieces led to before, they lead to after, with what stands there by then. -/
theorem follow_of_grows (grows : before.Grows after)
    (leads : (before.follow place pieces).place? = some found) :
    after.follow place pieces = .at found (after.at? found) := by
  fun_induction follow before place pieces with
  | case1 place entry stands =>
    obtain rfl : place = found := by simpa [Found.place?] using leads
    obtain ⟨later, stands, -⟩ := grows.kept stands
    rw [follow, stands, Found.at]
  | case2 | case3 | case6 | case9 => simp [Found.place?] at leads
  | case4 place rest opened ih =>
    rw [follow, if_neg (not_not.2 (grows.directory (not_not.1 opened))), if_pos rfl, ih leads]
  | case5 place rest opened notHere ih =>
    rw [follow, if_neg (not_not.2 (grows.directory (not_not.1 opened))), if_neg notHere,
      if_pos rfl, ih leads]
  | case7 place piece rest opened notHere notUp short inner entry stands ih =>
    obtain ⟨later, kept, -⟩ := grows.kept stands
    rw [follow, if_neg (not_not.2 (grows.directory (not_not.1 opened))), if_neg notHere,
      if_neg notUp, if_neg short]
    simp only [inner, kept, ih leads]
  | case8 place piece opened notHere notUp short inner empty =>
    obtain rfl : inner = found := by simpa [Found.place?] using leads
    rw [follow, if_neg (not_not.2 (grows.directory (not_not.1 opened))), if_neg notHere,
      if_neg notUp, if_neg short]
    cases stands : after.at? inner with
    | none => simp only [inner, stands, Found.at]
    | some entry => simp only [inner, stands, follow, Found.at]

/-- Where a path starts. -/
def start (system : FileSystem) (path : Path) : Place :=
  if path.isAbsolute then [] else system.working

/-- What is found for a path that may ask for a directory. -/
def Found.admitted (asked : Bool) : Found → Found
  | existing place (.file contents) => if asked then blocked else existing place (.file contents)
  | found => found

/-- A path is followed piece by piece unless it is empty or too long. -/
theorem find_eq (system : FileSystem) (path : Path) :
    system.find path =
      if path = [] then .missing
      else if maxPathSize < byteSize path then .blocked
      else (system.follow (system.start path) path.pieces).admitted (asksDirectory path) := by
  rw [find]
  split
  · rfl
  split
  · rfl
  · change (match system.follow (system.start path) path.pieces with
      | .existing place (.file contents) =>
        if asksDirectory path then Found.blocked else .existing place (.file contents)
      | found => found) = _
    cases system.follow (system.start path) path.pieces with
    | existing place entry => cases entry <;> rfl
    | vacant | missing | blocked => rfl

/-- What a path leads to, its pieces lead to. -/
theorem follow_of_find {path : Path} (leads : (system.find path).place? = some found) :
    path ≠ [] ∧ ¬ maxPathSize < byteSize path ∧
      (system.follow (system.start path) path.pieces).place? = some found := by
  rw [find_eq] at leads
  split at leads
  · simp [Found.place?] at leads
  split at leads
  · simp [Found.place?] at leads
  · rename_i named short
    refine ⟨named, short, ?_⟩
    cases followed : system.follow (system.start path) path.pieces with
    | existing place entry =>
      rw [followed] at leads
      cases entry with
      | directory => exact leads
      | file contents =>
        cases asked : asksDirectory path with
        | false => simpa [Found.admitted, asked] using leads
        | true => simp [Found.admitted, asked, Found.place?] at leads
    | vacant | missing | blocked => simpa [followed, Found.admitted] using leads

/-- The place that a path spells. -/
def placeOf (system : FileSystem) (path : Path) : Place :=
  Place.resolve (system.start path) path.pieces

/-- A path leads to the place that it spells. -/
theorem eq_placeOf_of_find {path : Path} (leads : (system.find path).place? = some found) :
    found = system.placeOf path :=
  eq_resolve_of_follow (follow_of_find leads).2.2

/-- The place of a path inside another one. -/
theorem placeOf_join (system : FileSystem) {outer inner : Path} (named : outer ≠ [])
    (relative : inner.isAbsolute = false) :
    system.placeOf (outer.join inner) = Place.resolve (system.placeOf outer) inner.pieces := by
  rw [placeOf, placeOf, start, start, Path.isAbsolute_join named relative,
    Path.pieces_join relative, Place.resolve_append]

/-- A path leads to the same place in a file system that has grown. -/
theorem Grows.placeOf_eq (grows : before.Grows after) (path : Path) :
    after.placeOf path = before.placeOf path := by
  rw [placeOf, placeOf, start, start, grows.working]

/-- Where a path led before, it leads after, with what stands there by then. -/
theorem find_of_grows {path : Path} (grows : before.Grows after)
    (leads : (before.find path).place? = some found)
    (fits : asksDirectory path = false ∨ after.at? found = some .directory) :
    after.find path = .at found (after.at? found) := by
  obtain ⟨named, short, leads⟩ := follow_of_find leads
  have start : before.start path = after.start path := by
    rw [FileSystem.start, FileSystem.start, grows.working]
  rw [find_eq, if_neg named, if_neg short, ← start, follow_of_grows grows leads]
  rcases fits with plain | opened
  · rw [plain]
    cases after.at? found with
    | none => rfl
    | some entry => cases entry <;> rfl
  · rw [opened]
    rfl

/-- What a path leads to is what stands at the place. -/
theorem find_eq_at {path : Path} (leads : (system.find path).place? = some found) :
    system.find path = .at found (system.at? found) := by
  obtain ⟨named, short, followed⟩ := follow_of_find leads
  have reached := follow_of_grows (.refl system) followed
  rw [find_eq, if_neg named, if_neg short, reached] at leads ⊢
  cases stands : system.at? found with
  | none => rfl
  | some entry =>
    cases entry with
    | directory => rfl
    | file contents =>
      cases asked : asksDirectory path with
      | false => rfl
      | true => simp [stands, Found.at, Found.admitted, asked, Found.place?] at leads

/-- What stands at the place to which a path leads is what is found. -/
theorem at?_of_find {path : Path} (leads : (system.find path).place? = some found) :
    system.at? found = (system.find path).standing? := by
  rw [find_eq_at leads, Found.standing?_at]

/-- An entry that is found stands at its place. -/
theorem leads_of_existing {path : Path} {entry : Entry}
    (there : system.find path = .existing place entry) :
    (system.find path).place? = some place ∧ system.at? place = some entry := by
  have leads : (system.find path).place? = some place := by rw [there, Found.place?]
  exact ⟨leads, by rw [at?_of_find leads, there, Found.standing?]⟩

/-- Nothing stands at a place that is found vacant. -/
theorem leads_of_vacant {path : Path} (there : system.find path = .vacant place) :
    (system.find path).place? = some place ∧ system.at? place = none := by
  have leads : (system.find path).place? = some place := by rw [there, Found.place?]
  exact ⟨leads, by rw [at?_of_find leads, there, Found.standing?]⟩

/-- A vacant place has a name without slashes. -/
theorem notMem_of_vacant {path : Path} {outer : Place} {name : Text}
    (there : system.find path = .vacant (outer ++ [name])) : '/' ∉ name := by
  obtain ⟨named, short, -⟩ := follow_of_find (leads_of_vacant there).1
  rw [find_eq, if_neg named, if_neg short] at there
  have followed : system.follow (system.start path) path.pieces = .vacant (outer ++ [name]) := by
    cases result : system.follow (system.start path) path.pieces with
    | existing place entry =>
      rw [result] at there
      cases entry with
      | file contents =>
        rw [Found.admitted] at there
        split at there <;> cases there
      | directory => cases there
    | vacant place =>
      rw [result] at there
      exact there
    | missing | blocked =>
      rw [result] at there
      cases there
  obtain ⟨parent, piece, listed, same⟩ := exists_of_vacant followed
  obtain rfl : name = piece := by simpa using (List.append_inj' same rfl).2
  exact Path.notMem_of_mem_pieces _ listed

/-- What holds something is a file. -/
theorem exists_of_contents? {path : Path} {contents : Contents}
    (stored : system.contents? path = some contents) :
    ∃ place, system.find path = .existing place (.file contents) := by
  rw [contents?] at stored
  cases found : system.find path with
  | existing place entry =>
    cases entry with
    | file own => exact ⟨place, by simpa [found] using stored⟩
    | directory => simp [found] at stored
  | vacant | missing | blocked => simp [found] at stored

/-- What holds contents is a file. -/
theorem kind?_of_contents? {path : Path} {contents : Contents}
    (stored : system.contents? path = some contents) : system.kind? path = some .file := by
  obtain ⟨place, file⟩ := exists_of_contents? stored
  rw [kind?, file]
  rfl

/-- A directory that a path leads to stands at the place that the path spells. -/
theorem at?_of_kind? {path : Path} (opened : system.kind? path = some .directory) :
    system.at? (system.placeOf path) = some .directory := by
  rw [kind?] at opened
  cases found : system.find path with
  | existing place entry =>
    obtain ⟨leads, stands⟩ := leads_of_existing found
    rw [← eq_placeOf_of_find leads, stands]
    cases entry with
    | file contents => simp [found, Entry.kind] at opened
    | directory => rfl
  | vacant | missing | blocked => simp [found] at opened

/-- A path that asks for a directory leads to no file. -/
theorem asksDirectory_of_find {path : Path} {contents : Contents}
    (file : system.find path = .existing place (.file contents)) :
    asksDirectory path = false := by
  obtain ⟨leads, -⟩ := leads_of_existing file
  obtain ⟨named, short, -⟩ := follow_of_find leads
  rw [find_eq, if_neg named, if_neg short] at file
  cases asked : asksDirectory path with
  | false => rfl
  | true =>
    rw [asked] at file
    cases followed : system.follow (system.start path) path.pieces with
    | existing place entry => cases entry <;> simp [followed, Found.admitted] at file
    | vacant | missing | blocked => simp [followed, Found.admitted] at file

end FileSystem

end ApiPages
