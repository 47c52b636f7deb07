import ApiPages.Xml.Read

/-!
# Glyphs

The text between markup and the values of attributes and entities are rows of glyphs: characters
that stand for themselves, characters that a reference gives, and references to entities. A
reference to a character gives its code in decimal or hexadecimal digits or is one of five names
that no document can redefine.
-/
namespace ApiPages.Xml

/-- One written item of running text. -/
inductive Glyph where
  /-- A character that stands for itself. -/
  | plain (character : Char)
  /-- A character that a reference gives. -/
  | referred (character : Char)
  /-- A reference to an entity. -/
  | entity (name : Text)
deriving DecidableEq

namespace Glyph

/-- The value of a digit in a base of at most sixteen. -/
def digitValue? (base : Nat) (digit : Char) : Option Nat :=
  let value :=
    if '0' ≤ digit ∧ digit ≤ '9' then digit.toNat - '0'.toNat
    else if 'a' ≤ digit ∧ digit ≤ 'f' then digit.toNat - 'a'.toNat + 10
    else if 'A' ≤ digit ∧ digit ≤ 'F' then digit.toNat - 'A'.toNat + 10
    else base
  if value < base then some value else none

/-- The number that digits write; there must be at least one. -/
def number? (base : Nat) (digits : Text) : Option Nat :=
  if digits = [] then none
  else digits.foldlM (fun number digit => (digitValue? base digit).map (number * base + ·)) 0

/-- The character of a code that fits into 32 bits. A code of no character gives the replacement
character, and one of a character that may not occur in a document gives nothing. -/
def ofCode? (code : Nat) : Option Glyph :=
  let character := if code.isValidChar then Char.ofNat code else Char.ofNat 0xFFFD
  if code < 0x100000000 ∧ isCharacter character then some (referred character) else none

/-- The characters that have a name in every document. -/
def predefined : List (Text × Char) :=
  [("lt".toList, '<'), ("gt".toList, '>'), ("amp".toList, '&'), ("quot".toList, '\x22'),
    ("apos".toList, '\x27')]

/-- The glyph of a reference, given the text between its ampersand and its semicolon. -/
def ofReference? : Text → Option Glyph
  | '#' :: 'x' :: digits => (number? 16 digits).bind ofCode?
  | '#' :: digits => (number? 10 digits).bind ofCode?
  | name =>
    if isName name then
      match predefined.find? (·.1 = name) with
      | some (_, character) => some (referred character)
      | none => some (entity name)
    else none

/-- Reads a row of glyphs, where `reference` holds backwards what has been read of a reference under
way. -/
def readFrom : (reference : Option Text) → Text → Option (List Glyph)
  | none, [] => some []
  | some _, [] => none
  | none, head :: rest =>
    if head = '&' then readFrom (some []) rest
    else (readFrom none rest).map (plain head :: ·)
  | some reversed, head :: rest =>
    if head = ';' then do
      let glyph ← ofReference? reversed.reverse
      (readFrom none rest).map (glyph :: ·)
    else readFrom (some (head :: reversed)) rest

/-- Reads a text as a row of glyphs. -/
def read (text : Text) : Option (List Glyph) := readFrom none text

end Glyph
end ApiPages.Xml
