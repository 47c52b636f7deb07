import ApiPages.Xml.DocumentType

/-!
# What precedes the root

A document may begin with a byte order mark and a declaration, which have no content; comments,
processing instructions and one document type may follow.
-/
namespace ApiPages.Xml.Prolog

/-- Takes the characters of a text if they are there. -/
def optionally (expected text : Text) : Text := (Reader.exactly expected text).getD text

/-- Takes a comment or a processing instruction after white space, or finds neither. -/
def gapStep : Reader (Reader.Found Unit Unit) := fun text =>
  let text := Reader.skipSpaces text
  match Reader.announced Lexeme.gaps text with
  | some taken => taken.map fun (_, rest) => (.item (), rest)
  | none => some (.finish (), text)

/-- A gap takes at least its mark. -/
theorem gapStep_shortens : Reader.Shortens gapStep := by
  intro text item rest taken
  have spaces := (Reader.skipSpaces_suffix text).length_le
  simp only [gapStep] at taken
  split at taken
  · next found =>
    simp only [Option.map_eq_some_iff, Prod.exists, Prod.mk.injEq] at taken
    obtain ⟨lexeme, rest, rfl, -, rfl⟩ := taken
    exact Nat.lt_of_lt_of_le (Reader.announced_shorter Lexeme.gaps_leaveEnd found) spaces
  · simp at taken

/-- Leaves out white space, comments and processing instructions. -/
def skipGaps (text : Text) : Option Text :=
  (Reader.repeated gapStep gapStep_shortens text).map fun (_, _, rest) => rest

/-- Takes an attribute of the declaration. -/
def declarationAttribute (text : Text) : Option Text := do
  let (_, rest) ← Reader.qualifiedName text
  let rest ← Reader.exactly ['='] (Reader.skipSpaces rest)
  let (value, rest) ← Reader.quoted (Reader.skipSpaces rest)
  if value.all isCharacter && !value.contains '<' then some rest else none

/-- Leaves out white space, of which there must be some unless the declaration ends here. -/
def declarationSpaces (text : Text) : Option Text :=
  if (Reader.exactly "?>".toList text).isSome || text.isEmpty then some text
  else Reader.spaces text

/-- Takes an attribute of the declaration if its name begins with a word. -/
def declarationPart (word text : Text) : Option Text :=
  if (Reader.exactly word text).isSome then declarationAttribute text else some text

/-- Takes the rest of the declaration at the very start of a document: a version, then perhaps an
encoding, then perhaps a word on standing alone. -/
def restOfDeclaration (text : Text) : Option Text := do
  let rest ← declarationSpaces text
  let _ ← Reader.exactly "version".toList rest
  let rest ← declarationSpaces (← declarationAttribute rest)
  let rest ←
    if (Reader.exactly "encoding".toList rest).isSome then
      (declarationAttribute rest).bind declarationSpaces
    else some rest
  let rest ← declarationPart "standalone".toList rest
  Reader.exactly "?>".toList (Reader.skipSpaces rest)

/-- Takes the declaration if the document begins with one. -/
def skipDeclaration (text : Text) : Option Text :=
  if (Reader.exactly "<?xml ".toList text).isSome then
    (Reader.exactly "<?xml".toList text).bind restOfDeclaration
  else some text

/-- Takes everything before the root. -/
def read : Reader Entities := fun text => do
  let rest ← skipDeclaration (optionally [Char.ofNat 0xFEFF] text)
  let (entities, rest) ← DocumentType.read (← skipGaps rest)
  some (entities, ← skipGaps rest)

end ApiPages.Xml.Prolog
