import ApiPages.Text.Basic

/-!
# Characters of XML

The classes of characters that the grammar of XML distinguishes: those that may occur at all, white
space, and those that start and continue a name.
-/
namespace ApiPages.Xml

/-- Whether a character may occur in a document. -/
def isCharacter (character : Char) : Bool :=
  let code := character.toNat
  if code < 0x20 then code == 0x09 || code == 0x0A || code == 0x0D
  else code != 0xFFFE && code != 0xFFFF

/-- Whether a character is white space between the parts of a document. -/
def isSpace (character : Char) : Bool :=
  character = ' ' || character = '\t' || character = '\n' || character = '\r'

/-- The characters that start a name, as closed ranges of code points. -/
def nameStarts : List (Nat × Nat) :=
  [(0x3A, 0x3A), (0x41, 0x5A), (0x5F, 0x5F), (0x61, 0x7A), (0xC0, 0xD6), (0xD8, 0xF6),
  (0xF8, 0x2FF), (0x370, 0x37D), (0x37F, 0x1FFF), (0x200C, 0x200D), (0x2070, 0x218F),
  (0x2C00, 0x2FEF), (0x3001, 0xD7FF), (0xF900, 0xFDCF), (0xFDF0, 0xFFFD), (0x10000, 0xEFFFF)]

/-- The characters that continue a name but do not start one. -/
def nameContinuations : List (Nat × Nat) :=
  [(0x2D, 0x2E), (0x30, 0x39), (0xB7, 0xB7), (0x300, 0x36F), (0x203F, 0x2040)]

/-- Whether some range holds a character. -/
def inRanges (ranges : List (Nat × Nat)) (character : Char) : Bool :=
  ranges.any fun range => range.1 ≤ character.toNat && character.toNat ≤ range.2

/-- Whether a character starts a name. -/
def startsName (character : Char) : Bool := inRanges nameStarts character

/-- Whether a character continues a name. -/
def continuesName (character : Char) : Bool :=
  startsName character || inRanges nameContinuations character

/-- Whether a text is a name. -/
def isName : Text → Bool
  | [] => false
  | head :: rest => startsName head && rest.all continuesName

end ApiPages.Xml
