import ApiPages.Xml.Character

/-!
# Reading from the front of a text

A reader takes something off the front of a text and returns it with the text that follows, or
fails. What it returns is an end of the text it was given. The readers here take given marks, white
space, names and quoted texts; repeating a step reads a row of items up to an end that the step
recognises, and comes to an end itself because every item takes at least one character.
-/
namespace ApiPages.Xml

/-- Takes something off the front of a text, or fails. -/
abbrev Reader (α : Type) := Text → Option (α × Text)

namespace Reader

/-- What a reader leaves is an end of the text that it was given. -/
def LeavesEnd {α : Type} (reader : Reader α) : Prop :=
  ∀ ⦃text value rest⦄, reader text = some (value, rest) → rest <:+ text

/-- Takes the characters of a text. -/
def exactly (expected : Text) : Text → Option Text := Text.dropStart? expected

/-- Leaves out white space, if there is any. -/
def skipSpaces (text : Text) : Text := text.dropWhile isSpace

/-- Leaves out white space, of which there must be some. -/
def spaces : Text → Option Text
  | [] => none
  | head :: rest => if isSpace head then some (skipSpaces rest) else none

/-- Takes a name. -/
def name : Reader Text
  | [] => none
  | head :: rest =>
    if startsName head then
      some (head :: rest.takeWhile continuesName, rest.dropWhile continuesName)
    else none

/-- Whether a character is a quotation mark. -/
def isQuote (character : Char) : Bool := character = '\x22' || character = '\x27'

/-- Takes a quotation mark, a text without it, and the mark again. -/
def quoted : Reader Text
  | [] => none
  | quote :: rest => if isQuote quote then Text.cutAt quote rest else none

/-- Takes a text up to the first occurrence of its end, which is taken too; all characters of the
text must be ones that may occur in a document. -/
def upTo (ending : Text) : Reader Text := fun text =>
  match Text.cutAtText ending text with
  | some (content, rest) => if content.all isCharacter then some (content, rest) else none
  | none => none

/-- Taking the characters of a text leaves an end. -/
theorem exactly_suffix {expected text rest : Text} (taken : exactly expected text = some rest) :
    rest <:+ text :=
  ⟨expected, (Text.dropStart?_eq_some_iff.1 taken).symm⟩

/-- Leaving out white space leaves an end. -/
theorem skipSpaces_suffix (text : Text) : skipSpaces text <:+ text := List.dropWhile_suffix _

/-- Taking white space that must be there leaves a shorter end. -/
theorem spaces_suffix {text rest : Text} (taken : spaces text = some rest) :
    rest <:+ text ∧ rest.length < text.length := by
  cases text with
  | nil => simp [spaces] at taken
  | cons head others =>
    simp only [spaces, Option.ite_none_right_eq_some, Option.some.injEq] at taken
    have left := taken.2 ▸ skipSpaces_suffix others
    exact ⟨left.trans (List.suffix_cons head others), Nat.lt_succ_of_le left.length_le⟩

/-- Taking a name leaves an end. -/
theorem name_leavesEnd : LeavesEnd name := by
  intro text value rest taken
  cases text with
  | nil => simp [name] at taken
  | cons head others =>
    simp only [name, Option.ite_none_right_eq_some, Option.some.injEq, Prod.mk.injEq] at taken
    exact taken.2.2 ▸ (List.dropWhile_suffix _).trans (List.suffix_cons head others)

/-- Taking a quoted text leaves an end. -/
theorem quoted_leavesEnd : LeavesEnd quoted := by
  intro text value rest taken
  cases text with
  | nil => simp [quoted] at taken
  | cons quote others =>
    simp only [quoted, Option.ite_none_right_eq_some] at taken
    exact ⟨quote :: value ++ [quote], by simp [Text.eq_of_cutAt taken.2]⟩

/-- Taking a text up to its end leaves an end. -/
theorem upTo_leavesEnd (ending : Text) : LeavesEnd (upTo ending) := by
  intro text value rest taken
  simp only [upTo] at taken
  split at taken
  · rename_i content following found
    simp only [Option.ite_none_right_eq_some, Option.some.injEq, Prod.mk.injEq] at taken
    obtain ⟨-, rfl, rfl⟩ := taken
    exact ⟨content ++ ending, by simp [Text.eq_of_cutAtText found]⟩
  · simp at taken

/-- A text that begins with a mark, followed by what the mark announces: the first mark that the
text begins with decides. If it begins with none, nothing is returned at all. -/
def announced {α : Type} (table : List (Text × Reader α)) (text : Text) :
    Option (Option (α × Text)) :=
  table.findSome? fun (mark, reader) => (exactly mark text).map reader

/-- What was announced was read after one of the marks. -/
theorem announced_read {α : Type} {table : List (Text × Reader α)} {text rest : Text} {value : α}
    (taken : announced table text = some (some (value, rest))) :
    ∃ mark reader following, (mark, reader) ∈ table ∧ text = mark ++ following ∧
      reader following = some (value, rest) := by
  obtain ⟨⟨mark, reader⟩, listed, fits⟩ := List.exists_of_findSome?_eq_some taken
  obtain ⟨following, found, read⟩ := Option.map_eq_some_iff.1 fits
  exact ⟨mark, reader, following, listed, Text.dropStart?_eq_some_iff.1 found, read⟩

/-- Reading what a mark announces leaves an end. -/
theorem announced_suffix {α : Type} {table : List (Text × Reader α)} {text rest : Text} {value : α}
    (leavesEnd : ∀ entry ∈ table, LeavesEnd entry.2)
    (taken : announced table text = some (some (value, rest))) : rest <:+ text := by
  obtain ⟨mark, reader, following, listed, rfl, read⟩ := announced_read taken
  exact (leavesEnd _ listed read).trans (List.suffix_append mark following)

/-- Reading what a mark announces takes at least the mark. -/
theorem announced_shorter {α : Type} {table : List (Text × Reader α)} {text rest : Text} {value : α}
    (leavesEnd : ∀ entry ∈ table, entry.1 ≠ [] ∧ LeavesEnd entry.2)
    (taken : announced table text = some (some (value, rest))) : rest.length < text.length := by
  obtain ⟨mark, reader, following, listed, rfl, read⟩ := announced_read taken
  have taken := ((leavesEnd _ listed).2 read).length_le
  have present := List.length_pos_iff.2 (leavesEnd _ listed).1
  grind

/-- Takes what a reader takes and returns a given value for it. -/
def returning {α β : Type} (value : β) (reader : Reader α) : Reader β := fun text =>
  (reader text).map fun (_, rest) => (value, rest)

/-- Returning another value leaves the same end. -/
theorem LeavesEnd.returning {α β : Type} {reader : Reader α} (leavesEnd : LeavesEnd reader)
    (value : β) : LeavesEnd (Reader.returning value reader) := by
  intro text value rest taken
  simp only [Reader.returning, Option.map_eq_some_iff, Prod.exists, Prod.mk.injEq] at taken
  obtain ⟨_, rest, read, -, rfl⟩ := taken
  exact leavesEnd read

/-- What a step of a repeated reading found. -/
inductive Found (α β : Type) where
  /-- One more item. -/
  | item (item : α)
  /-- The end of the row. -/
  | finish (last : β)

/-- Every item that a step finds takes at least one character. -/
def Shortens {α β : Type} (step : Reader (Found α β)) : Prop :=
  ∀ ⦃text item rest⦄, step text = some (.item item, rest) → rest.length < text.length

/-- Repeats a step until it finds the end of the row. -/
def repeated {α β : Type} (step : Reader (Found α β)) (shortens : Shortens step) (text : Text) :
    Option (List α × β × Text) :=
  match found : step text with
  | none => none
  | some (.finish last, rest) => some ([], last, rest)
  | some (.item item, rest) =>
    have := shortens found
    (repeated step shortens rest).map fun (items, following) => (item :: items, following)
termination_by text.length

/-- A row whose first step finds an item. -/
theorem repeated_item {α β : Type} {step : Reader (Found α β)} (shortens : Shortens step)
    {text rest : Text} {item : α} (found : step text = some (.item item, rest)) :
    repeated step shortens text =
      (repeated step shortens rest).map fun (items, following) => (item :: items, following) := by
  rw [repeated]
  split <;> simp_all

/-- A row whose first step finds the end. -/
theorem repeated_finish {α β : Type} {step : Reader (Found α β)} (shortens : Shortens step)
    {text rest : Text} {last : β} (found : step text = some (.finish last, rest)) :
    repeated step shortens text = some ([], last, rest) := by
  rw [repeated]
  split <;> simp_all

/-- Reading a row leaves an end if each step does. -/
theorem repeated_suffix {α β : Type} {step : Reader (Found α β)} (shortens : Shortens step)
    (leavesEnd : LeavesEnd step) {text rest : Text} {items : List α} {last : β}
    (taken : repeated step shortens text = some (items, last, rest)) : rest <:+ text := by
  induction text using (measure List.length).wf.induction generalizing items with
  | _ text ih =>
    match found : step text with
    | none => rw [repeated] at taken; split at taken <;> simp_all
    | some (.finish last, following) =>
      rw [repeated_finish shortens found] at taken
      simp only [Option.some.injEq, Prod.mk.injEq] at taken
      exact taken.2.2 ▸ leavesEnd found
    | some (.item item, following) =>
      rw [repeated_item shortens found] at taken
      simp only [Option.map_eq_some_iff, Prod.exists, Prod.mk.injEq] at taken
      obtain ⟨items, last, rest, inner, -, rfl, rfl⟩ := taken
      exact (ih following (shortens found) inner).trans (leavesEnd found)

end Reader
end ApiPages.Xml
