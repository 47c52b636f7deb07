import ApiPages.Xml.Tag

/-!
# Lexemes of element content

The content of an element is cut into tags, runs of text, verbatim sections and gaps. A gap is a
comment or a processing instruction: it has no content of its own but keeps the texts on both sides
apart. What a lexeme is follows from its first characters alone, and every lexeme has at least one,
so that cutting comes to an end. It ends behind the tag that closes more than has been opened, or
else with the text; whether tags match is not decided here.
-/
namespace ApiPages.Xml

/-- A piece of element content with texts of type `α` and attribute values of type `β`. -/
inductive Lexeme (α β : Type) where
  /-- The tag that opens an element; if `closed`, it also closes it. -/
  | opening (name : QualifiedName) (attributes : List (QualifiedName × β)) (closed : Bool)
  /-- An opening tag that the end of the text cuts off. -/
  | cutOff (attributes : List (QualifiedName × β))
  /-- The tag that closes an element. -/
  | closing (name : QualifiedName)
  /-- A text up to the next markup. -/
  | text (text : α)
  /-- A comment or a processing instruction. -/
  | gap
deriving DecidableEq

/-- A text as it was written. -/
inductive RawText where
  /-- A run of glyphs. -/
  | run (glyphs : List Glyph)
  /-- A section of characters that all stand for themselves. -/
  | verbatim (content : Text)
deriving DecidableEq

/-- A lexeme in which references have not been resolved. -/
abbrev RawLexeme := Lexeme RawText (List Glyph)

namespace Lexeme

/-- Takes the rest of an opening tag. The qualifier of declarations cannot qualify an element. -/
def openingTag : Reader RawLexeme := fun text => do
  let (name, rest) ← Reader.qualifiedName text
  let ((attributes, ending), rest) ← Reader.attributes rest
  if name.qualifier = declaration then none
  else
    match ending with
    | .opened => some (.opening name attributes false, rest)
    | .closed => some (.opening name attributes true, rest)
    | .cutOff => some (.cutOff attributes, rest)

/-- Takes the rest of a closing tag. -/
def closingTag : Reader RawLexeme := fun text => do
  let (name, rest) ← Reader.qualifiedName text
  let rest ← Reader.exactly ['>'] (Reader.skipSpaces rest)
  some (.closing name, rest)

/-- Takes the rest of a comment, in which two hyphens must not meet. -/
def comment : Reader RawLexeme := fun text => do
  let (content, rest) ← Reader.upTo "-->".toList text
  if Text.holds content "--".toList || content.getLast? == some '-' then none
  else some (.gap, rest)

/-- Takes the rest of a processing instruction. -/
def instruction : Reader RawLexeme := fun text => do
  let (_, rest) ← Reader.name text
  let (_, rest) ← Reader.upTo "?>".toList rest
  some (.gap, rest)

/-- Takes the rest of a verbatim section. -/
def verbatimSection : Reader RawLexeme := fun text => do
  let (content, rest) ← Reader.upTo "]]>".toList text
  some (.text (.verbatim content), rest)

/-- Takes a run of text. -/
def textRun : Reader RawLexeme := fun text => do
  let run := text.takeWhile (· ≠ '<')
  if run.all isCharacter && !Text.holds run "]]>".toList then
    let glyphs ← Glyph.read run
    some (.text (.run glyphs), text.dropWhile (· ≠ '<'))
  else none

/-- The beginnings of gaps with what follows them; the beginning of a document's declaration is
refused. -/
def gaps : List (Text × Reader RawLexeme) :=
  [("<!--".toList, comment), ("<?xml ".toList, fun _ => none), ("<?".toList, instruction)]

/-- The beginnings of lexemes other than runs of text, with what follows them. -/
def markup : List (Text × Reader RawLexeme) :=
  gaps ++
    [("<![CDATA[".toList, verbatimSection), ("</".toList, closingTag), ("<".toList, openingTag)]

/-- Takes a lexeme. -/
def take : Reader RawLexeme
  | [] => none
  | head :: rest =>
    if head = '<' then (Reader.announced markup (head :: rest)).join else textRun (head :: rest)

/-- Taking the rest of an opening tag leaves an end. -/
theorem openingTag_leavesEnd : Reader.LeavesEnd openingTag := by
  intro text lexeme rest taken
  simp only [openingTag, Option.bind_eq_bind, Option.bind_eq_some_iff, Prod.exists,
    Option.ite_none_left_eq_some] at taken
  obtain ⟨name, afterName, named, attributes, ending, afterTag, row, -, result⟩ := taken
  have left := (Reader.attributes_leavesEnd row).trans (Reader.qualifiedName_leavesEnd named)
  cases ending <;> simp_all

/-- Taking the rest of a closing tag leaves an end. -/
theorem closingTag_leavesEnd : Reader.LeavesEnd closingTag := by
  intro text lexeme rest taken
  simp only [closingTag, Option.bind_eq_bind, Option.bind_eq_some_iff, Prod.exists,
    Option.some.injEq, Prod.mk.injEq] at taken
  obtain ⟨name, afterName, named, rest, bracket, -, rfl⟩ := taken
  exact (Reader.exactly_suffix bracket).trans <| (Reader.skipSpaces_suffix _).trans <|
    Reader.qualifiedName_leavesEnd named

/-- Taking the rest of a comment leaves an end. -/
theorem comment_leavesEnd : Reader.LeavesEnd comment := by
  intro text lexeme rest taken
  simp only [comment, Option.bind_eq_bind, Option.bind_eq_some_iff, Prod.exists,
    Option.ite_none_left_eq_some, Option.some.injEq, Prod.mk.injEq] at taken
  obtain ⟨content, rest, found, -, -, rfl⟩ := taken
  exact Reader.upTo_leavesEnd _ found

/-- Taking the rest of a processing instruction leaves an end. -/
theorem instruction_leavesEnd : Reader.LeavesEnd instruction := by
  intro text lexeme rest taken
  simp only [instruction, Option.bind_eq_bind, Option.bind_eq_some_iff, Prod.exists,
    Option.some.injEq, Prod.mk.injEq] at taken
  obtain ⟨name, afterName, named, content, rest, found, -, rfl⟩ := taken
  exact (Reader.upTo_leavesEnd _ found).trans (Reader.name_leavesEnd named)

/-- Taking the rest of a verbatim section leaves an end. -/
theorem verbatimSection_leavesEnd : Reader.LeavesEnd verbatimSection := by
  intro text lexeme rest taken
  simp only [verbatimSection, Option.bind_eq_bind, Option.bind_eq_some_iff, Prod.exists,
    Option.some.injEq, Prod.mk.injEq] at taken
  obtain ⟨content, rest, found, -, rfl⟩ := taken
  exact Reader.upTo_leavesEnd _ found

/-- Every gap has a mark in front, and what takes the rest of it leaves an end. -/
theorem gaps_leaveEnd : ∀ entry ∈ gaps, entry.1 ≠ [] ∧ Reader.LeavesEnd entry.2 := by
  rw [gaps, List.forall_mem_cons, List.forall_mem_cons, List.forall_mem_singleton]
  exact ⟨⟨by decide, comment_leavesEnd⟩, ⟨by decide, fun _ _ _ taken => nomatch taken⟩,
    by decide, instruction_leavesEnd⟩

/-- All markup has a mark in front, and what takes the rest of it leaves an end. -/
theorem markup_leavesEnd : ∀ entry ∈ markup, entry.1 ≠ [] ∧ Reader.LeavesEnd entry.2 := by
  rw [markup, List.forall_mem_append, List.forall_mem_cons, List.forall_mem_cons,
    List.forall_mem_singleton]
  exact ⟨gaps_leaveEnd, ⟨by decide, verbatimSection_leavesEnd⟩, ⟨by decide, closingTag_leavesEnd⟩,
    by decide, openingTag_leavesEnd⟩

/-- A run of text that does not begin with markup takes at least a character. -/
theorem textRun_shorter {head : Char} {text rest : Text} {lexeme : RawLexeme} (plain : head ≠ '<')
    (taken : textRun (head :: text) = some (lexeme, rest)) : rest.length < text.length + 1 := by
  simp only [textRun, Option.bind_eq_bind, Option.bind_eq_some_iff, Option.ite_none_right_eq_some,
    Option.some.injEq, Prod.mk.injEq] at taken
  obtain ⟨-, -, -, -, rfl⟩ := taken
  simpa [plain] using Nat.lt_succ_of_le (List.dropWhile_suffix (· ≠ '<')).length_le

/-- Every lexeme takes at least a character. -/
theorem take_shorter {text rest : Text} {lexeme : RawLexeme}
    (taken : take text = some (lexeme, rest)) : rest.length < text.length := by
  cases text with
  | nil => simp [take] at taken
  | cons head text =>
    simp only [take] at taken
    split at taken
    · exact Reader.announced_shorter markup_leavesEnd (Option.join_eq_some_iff.1 taken)
    · next plain => exact textRun_shorter plain taken

/-- How many elements are open after a lexeme when so many were before, or nothing if it closes one
more. -/
def openAfter {α β : Type} : (before : Nat) → Lexeme α β → Option Nat
  | before, opening _ _ closed => some (if closed then before else before + 1)
  | 0, closing _ => none
  | before + 1, closing _ => some before
  | before, cutOff _ | before, text _ | before, gap => some before

/-- Takes lexemes, of which so many elements are open, up to the tag that closes one more or up to
the end of the text. -/
def takeContent (before : Nat) (text : Text) : Option (List RawLexeme × Text) :=
  if text = [] then some ([], [])
  else
    match taken : take text with
    | none => none
    | some (lexeme, rest) =>
      match lexeme.openAfter before with
      | none => some ([lexeme], rest)
      | some after =>
        have := take_shorter taken
        (takeContent after rest).map fun (lexemes, rest) => (lexeme :: lexemes, rest)
termination_by text.length

/-- Takes the lexemes of a document from the opening tag of its root on. -/
def takeRoot : Reader (List RawLexeme) := fun text => do
  let (lexeme, rest) ← take text
  match lexeme with
  | .opening _ _ true => some ([lexeme], rest)
  | .opening _ _ false => (takeContent 0 rest).map fun (lexemes, rest) => (lexeme :: lexemes, rest)
  | .cutOff _ | .closing _ | .text _ | .gap => none

/-- Whether the first tag of a row closes an element. -/
def closesFirst {α β : Type} : List (Lexeme α β) → Bool
  | [] => false
  | opening _ _ _ :: _ => false
  | closing _ :: _ => true
  | cutOff _ :: rest | text _ :: rest | gap :: rest => closesFirst rest

/-- The lexemes of the text of an entity, which must not close an element before it has opened
one. What follows the tag that closes more than the text has opened is passed over. -/
def ofEntity? (text : Text) : Option (List RawLexeme) := do
  let (lexemes, _) ← takeContent 0 text
  if closesFirst lexemes then none else some lexemes

end Lexeme
end ApiPages.Xml
