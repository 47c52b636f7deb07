import ApiPages.Xml.Glyph

/-!
# Tags

A tag has a qualified name and, where it opens an element, attributes. White space precedes every
attribute. An opening tag may also close its element, and it may be cut off by the end of the text
directly behind its name or an attribute. The row of attributes comes to an end because every
attribute takes at least the white space before it.
-/
namespace ApiPages.Xml

/-- A name with the part before its colon. -/
structure QualifiedName where
  /-- The part before the colon, empty if there is none. -/
  qualifier : Text
  /-- The part after the colon. -/
  base : Text
deriving DecidableEq

/-- Whether a text begins like a name. -/
def beginsName : Text → Bool
  | [] => false
  | head :: _ => startsName head

/-- The qualified name of a word; at most one colon may stand in it. -/
def QualifiedName.ofWord? (word : Text) : Option QualifiedName :=
  match word.splitOn ':' with
  | [base] => if beginsName base then some ⟨[], base⟩ else none
  | [qualifier, base] =>
    if (qualifier = [] || beginsName qualifier) && beginsName base then some ⟨qualifier, base⟩
    else none
  | _ => none

/-- The qualifier of attributes that declare qualifiers, and the name of the attribute that declares
the namespace of unqualified elements. -/
def declaration : Text := "xmlns".toList

/-- An attribute in which references have not been resolved: its name and its value. -/
abbrev RawAttribute := QualifiedName × List Glyph

/-- How an opening tag ends. -/
inductive TagEnd where
  /-- The element is open. -/
  | opened
  /-- The element is closed at once. -/
  | closed
  /-- The text ends before the tag does. -/
  | cutOff
deriving DecidableEq

namespace Reader

/-- Takes a qualified name. -/
def qualifiedName : Reader QualifiedName := fun text => do
  let name ← QualifiedName.ofWord? (text.takeWhile continuesName)
  some (name, text.dropWhile continuesName)

/-- Taking a qualified name leaves an end. -/
theorem qualifiedName_leavesEnd : LeavesEnd qualifiedName := by
  intro text name rest taken
  simp only [qualifiedName, Option.bind_eq_bind, Option.bind_eq_some_iff, Option.some.injEq,
    Prod.mk.injEq] at taken
  obtain ⟨-, -, -, rfl⟩ := taken
  exact List.dropWhile_suffix _

/-- Takes the value of an attribute. -/
def attributeValue : Reader (List Glyph) := fun text => do
  let (value, rest) ← quoted text
  if value.all isCharacter && !value.contains '<' then
    let glyphs ← Glyph.read value
    some (glyphs, rest)
  else none

/-- Takes an attribute, which white space must precede. -/
def rawAttribute : Reader RawAttribute := fun text => do
  let rest ← spaces text
  let (name, rest) ← qualifiedName rest
  let rest ← exactly ['='] (skipSpaces rest)
  let (value, rest) ← attributeValue (skipSpaces rest)
  some ((name, value), rest)

/-- Takes an attribute or the end of an opening tag. -/
def tagStep : Reader (Found RawAttribute TagEnd) := fun text =>
  match text.isEmpty, skipSpaces text with
  | true, _ => some (.finish .cutOff, text)
  | false, '/' :: '>' :: rest => some (.finish .closed, rest)
  | false, '>' :: rest => some (.finish .opened, rest)
  | false, _ => (rawAttribute text).map fun (taken, rest) => (.item taken, rest)

/-- Taking the value of an attribute leaves an end. -/
theorem attributeValue_leavesEnd : LeavesEnd attributeValue := by
  intro text glyphs rest taken
  simp only [attributeValue, Option.bind_eq_bind, Option.bind_eq_some_iff, Prod.exists,
    Option.ite_none_right_eq_some, Option.some.injEq, Prod.mk.injEq] at taken
  obtain ⟨value, rest, quoted, -, -, -, -, rfl⟩ := taken
  exact quoted_leavesEnd quoted

/-- Taking an attribute leaves a shorter end. -/
theorem rawAttribute_suffix {text rest : Text} {taken : RawAttribute}
    (read : rawAttribute text = some (taken, rest)) :
    rest <:+ text ∧ rest.length < text.length := by
  simp only [rawAttribute, Option.bind_eq_bind, Option.bind_eq_some_iff, Prod.exists,
    Option.some.injEq, Prod.mk.injEq] at read
  obtain ⟨afterSpace, spaces, name, afterName, named, afterSign, sign, value, rest, valued, -,
    rfl⟩ := read
  have left : rest <:+ afterSpace :=
    (attributeValue_leavesEnd valued).trans <| (skipSpaces_suffix _).trans <|
      (exactly_suffix sign).trans <| (skipSpaces_suffix _).trans <|
        qualifiedName_leavesEnd named
  obtain ⟨spaceLeft, shorter⟩ := spaces_suffix spaces
  exact ⟨left.trans spaceLeft, Nat.lt_of_le_of_lt left.length_le shorter⟩

/-- Taking an attribute or the end of a tag leaves an end. -/
theorem tagStep_leavesEnd : LeavesEnd tagStep := by
  intro text found rest taken
  have spaces := skipSpaces_suffix text
  simp only [tagStep] at taken
  split at taken
  · simp only [Option.some.injEq, Prod.mk.injEq] at taken
    exact taken.2 ▸ List.suffix_rfl
  · next ending =>
    simp only [Option.some.injEq, Prod.mk.injEq] at taken
    rw [ending] at spaces
    exact taken.2 ▸ (List.suffix_append ['/', '>'] _).trans spaces
  · next ending =>
    simp only [Option.some.injEq, Prod.mk.injEq] at taken
    rw [ending] at spaces
    exact taken.2 ▸ (List.suffix_append ['>'] _).trans spaces
  · simp only [Option.map_eq_some_iff, Prod.exists, Prod.mk.injEq] at taken
    obtain ⟨name, value, rest, read, -, rfl⟩ := taken
    exact (rawAttribute_suffix read).1

/-- An attribute takes at least the white space before it. -/
theorem tagStep_shortens : Shortens tagStep := by
  intro text item rest taken
  simp only [tagStep] at taken
  split at taken
  · simp at taken
  · simp at taken
  · simp at taken
  · simp only [Option.map_eq_some_iff, Prod.exists, Prod.mk.injEq] at taken
    obtain ⟨name, value, rest, read, -, rfl⟩ := taken
    exact (rawAttribute_suffix read).2

/-- Takes the attributes of an opening tag and its end. -/
def attributes : Reader (List RawAttribute × TagEnd) := fun text =>
  (repeated tagStep tagStep_shortens text).map fun (taken, ending, rest) => ((taken, ending), rest)

/-- Taking the attributes of an opening tag leaves an end. -/
theorem attributes_leavesEnd : LeavesEnd attributes := by
  intro text found rest taken
  simp only [attributes, Option.map_eq_some_iff, Prod.exists, Prod.mk.injEq] at taken
  obtain ⟨items, ending, rest, row, -, rfl⟩ := taken
  exact repeated_suffix _ tagStep_leavesEnd row

end Reader
end ApiPages.Xml
