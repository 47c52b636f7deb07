import ApiPages.Xml.Expansion

/-!
# Document types

A document type names the root and may declare things between square brackets. Of what it declares
only entities with a text are kept, and those with a percent sign count as entities like any others:
other declarations are passed over, and so are entities that live outside the document.
-/
namespace ApiPages.Xml.DocumentType

/-- Takes a quoted text after white space. -/
def spacedQuoted : Reader Text := fun text => (Reader.spaces text).bind Reader.quoted

/-- The words that announce something outside the document, with what follows them: where it is
found, which one of the two words puts a public name before. -/
def externalNames : List (Text × Reader Text) :=
  [("SYSTEM".toList, spacedQuoted),
    ("PUBLIC".toList, fun text => do
      let (_, rest) ← spacedQuoted text
      spacedQuoted rest)]

/-- Takes the notation of an entity that lives outside the document, which only a general entity
may have. -/
def notationName (general : Bool) (text : Text) : Option Text :=
  match general, Reader.exactly "NDATA".toList (Reader.skipSpaces text) with
  | true, some rest => do
    let (_, rest) ← Reader.name (← Reader.spaces rest)
    some rest
  | true, none | false, _ => some text

/-- Takes what an entity stands for: a text, or nothing if it lives outside the document. -/
def entityDefinition (general : Bool) : Reader (Option Text) := fun text =>
  match Reader.quoted text with
  | some (value, rest) => some (some value, rest)
  | none => do
    let (_, rest) ← (Reader.announced externalNames text).join
    let rest ← notationName general rest
    some (none, rest)

/-- Takes the percent sign of an entity that is not general, with the white space after it, if there
is one; says whether the entity is general. -/
def entityKind : Reader Bool := fun text =>
  match Reader.exactly ['%'] text with
  | some rest => (Reader.spaces rest).map (false, ·)
  | none => some (true, text)

/-- Takes the rest of an entity declaration, of which there is something to keep if it gives a
text. -/
def entityDeclaration : Reader Entities := fun text => do
  let rest ← Reader.spaces text
  let (general, rest) ← entityKind rest
  let (name, rest) ← Reader.name rest
  let rest ← Reader.spaces rest
  let (value, rest) ← entityDefinition general rest
  let rest ← Reader.exactly ['>'] (Reader.skipSpaces rest)
  some (value.toList.map (name, ·), rest)

/-- Passes over the rest of a declaration up to its closing bracket. -/
def otherDeclaration : Reader Entities := fun text =>
  (Text.cutAt '>' text).map fun (_, rest) => ([], rest)

/-- The beginnings of declarations, with what follows them; gaps may stand among them. -/
def declarations : List (Text × Reader Entities) :=
  Lexeme.gaps.map (fun (mark, reader) => (mark, Reader.returning [] reader)) ++
    [("<!ENTITY".toList, entityDeclaration), ("<!ELEMENT".toList, otherDeclaration),
      ("<!ATTLIST".toList, otherDeclaration), ("<!NOTATION".toList, otherDeclaration)]

/-- Takes a declaration after white space, or the end of the document type. -/
def declarationStep : Reader (Reader.Found Entities Unit) := fun text =>
  match Reader.skipSpaces text with
  | ']' :: rest =>
    (Reader.exactly ['>'] (Reader.skipSpaces rest)).map fun rest => (.finish (), rest)
  | text =>
    (Reader.announced declarations text).join.map fun (entities, rest) => (.item entities, rest)

/-- Taking a quoted text after white space leaves an end. -/
theorem spacedQuoted_leavesEnd : Reader.LeavesEnd spacedQuoted := by
  intro text value rest taken
  obtain ⟨afterSpace, spaces, quoted⟩ := Option.bind_eq_some_iff.1 taken
  exact (Reader.quoted_leavesEnd quoted).trans (Reader.spaces_suffix spaces).1

/-- What is announced as outside the document leaves an end. -/
theorem externalNames_leaveEnd :
    ∀ entry ∈ externalNames, entry.1 ≠ [] ∧ Reader.LeavesEnd entry.2 := by
  rw [externalNames, List.forall_mem_cons, List.forall_mem_singleton]
  refine ⟨⟨by decide, spacedQuoted_leavesEnd⟩, by decide, fun text value rest taken => ?_⟩
  simp only [Option.bind_eq_bind, Option.bind_eq_some_iff, Prod.exists] at taken
  obtain ⟨name, afterName, named, place⟩ := taken
  exact (spacedQuoted_leavesEnd place).trans (spacedQuoted_leavesEnd named)

/-- Taking a notation leaves an end. -/
theorem notationName_suffix {general : Bool} {text rest : Text}
    (taken : notationName general text = some rest) : rest <:+ text := by
  simp only [notationName] at taken
  split at taken
  · next word =>
    simp only [Option.bind_eq_bind, Option.bind_eq_some_iff, Prod.exists,
      Option.some.injEq] at taken
    obtain ⟨afterSpace, spaces, name, rest, named, rfl⟩ := taken
    exact (Reader.name_leavesEnd named).trans <| (Reader.spaces_suffix spaces).1.trans <|
      (Reader.exactly_suffix word).trans (Reader.skipSpaces_suffix text)
  all_goals exact Option.some.inj taken ▸ List.suffix_rfl

/-- Taking what an entity stands for leaves an end. -/
theorem entityDefinition_leavesEnd (general : Bool) :
    Reader.LeavesEnd (entityDefinition general) := by
  intro text value rest taken
  simp only [entityDefinition] at taken
  split at taken
  · next found =>
    simp only [Option.some.injEq, Prod.mk.injEq] at taken
    exact taken.2 ▸ Reader.quoted_leavesEnd found
  · simp only [Option.bind_eq_bind, Option.bind_eq_some_iff, Prod.exists, Option.some.injEq,
      Prod.mk.injEq, Option.join_eq_some_iff] at taken
    obtain ⟨place, afterPlace, found, rest, kept, -, rfl⟩ := taken
    exact (notationName_suffix kept).trans <|
      Reader.announced_suffix (fun entry listed => (externalNames_leaveEnd entry listed).2) found

/-- Taking the sign of the kind of an entity leaves an end. -/
theorem entityKind_leavesEnd : Reader.LeavesEnd entityKind := by
  intro text value rest taken
  simp only [entityKind] at taken
  split at taken
  · next sign =>
    simp only [Option.map_eq_some_iff, Prod.mk.injEq] at taken
    obtain ⟨rest, spaces, -, rfl⟩ := taken
    exact (Reader.spaces_suffix spaces).1.trans (Reader.exactly_suffix sign)
  · simp only [Option.some.injEq, Prod.mk.injEq] at taken
    exact taken.2 ▸ List.suffix_rfl

/-- Taking the rest of an entity declaration leaves an end. -/
theorem entityDeclaration_leavesEnd : Reader.LeavesEnd entityDeclaration := by
  intro text value rest taken
  simp only [entityDeclaration, Option.bind_eq_bind, Option.bind_eq_some_iff, Prod.exists,
    Option.some.injEq, Prod.mk.injEq] at taken
  obtain ⟨afterSpace, spaces, general, afterKind, kind, name, afterName, named, beforeValue,
    moreSpaces, value, afterValue, defined, rest, bracket, -, rfl⟩ := taken
  exact (Reader.exactly_suffix bracket).trans <| (Reader.skipSpaces_suffix _).trans <|
    (entityDefinition_leavesEnd general defined).trans <|
    (Reader.spaces_suffix moreSpaces).1.trans <| (Reader.name_leavesEnd named).trans <|
    (entityKind_leavesEnd kind).trans (Reader.spaces_suffix spaces).1

/-- Passing over the rest of a declaration leaves an end. -/
theorem otherDeclaration_leavesEnd : Reader.LeavesEnd otherDeclaration := by
  intro text value rest taken
  simp only [otherDeclaration, Option.map_eq_some_iff, Prod.exists, Prod.mk.injEq] at taken
  obtain ⟨passed, rest, cut, -, rfl⟩ := taken
  exact ⟨passed ++ ['>'], by simp [Text.eq_of_cutAt cut]⟩

/-- Every declaration has a mark in front, and what takes the rest of it leaves an end. -/
theorem declarations_leaveEnd :
    ∀ entry ∈ declarations, entry.1 ≠ [] ∧ Reader.LeavesEnd entry.2 := by
  rw [declarations, List.forall_mem_append, List.forall_mem_map, List.forall_mem_cons,
    List.forall_mem_cons, List.forall_mem_cons, List.forall_mem_singleton]
  exact ⟨fun entry listed => (Lexeme.gaps_leaveEnd entry listed).imp_right (·.returning []),
    ⟨by decide, entityDeclaration_leavesEnd⟩, ⟨by decide, otherDeclaration_leavesEnd⟩,
    ⟨by decide, otherDeclaration_leavesEnd⟩, by decide, otherDeclaration_leavesEnd⟩

/-- A declaration takes at least its mark. -/
theorem declarationStep_shortens : Reader.Shortens declarationStep := by
  intro text item rest taken
  have spaces := (Reader.skipSpaces_suffix text).length_le
  simp only [declarationStep] at taken
  split at taken
  · simp at taken
  · simp only [Option.map_eq_some_iff, Prod.exists, Prod.mk.injEq, Option.join_eq_some_iff] at taken
    obtain ⟨entities, rest, found, -, rfl⟩ := taken
    exact Nat.lt_of_lt_of_le (Reader.announced_shorter declarations_leaveEnd found) spaces

/-- Takes where the rest of a document type is found, if it is found outside the document. -/
def skipExternalName (text : Text) : Option Text :=
  match Reader.announced externalNames text with
  | some taken => taken.map fun (_, rest) => rest
  | none => some text

/-- Takes the rest of a document type. -/
def restOfDocumentType : Reader Entities := fun text => do
  let (_, rest) ← Reader.name (← Reader.spaces text)
  let rest ← skipExternalName (Reader.skipSpaces rest)
  match Reader.skipSpaces rest with
  | '>' :: rest => some ([], rest)
  | '[' :: rest => do
    let (entities, _, rest) ← Reader.repeated declarationStep declarationStep_shortens rest
    some (entities.flatten, rest)
  | _ => none

/-- Takes a document type if there is one. -/
def read : Reader Entities := fun text =>
  match Reader.exactly "<!DOCTYPE".toList text with
  | some rest => restOfDocumentType rest
  | none => some ([], text)

end ApiPages.Xml.DocumentType
