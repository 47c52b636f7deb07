import ApiPages.Text.Basic
import ApiPages.Text.CaseData

/-!
# Full lowercasing

Each character is mapped by the Unicode tables on its own, with two exceptions. A capital I with a
dot above becomes two characters. A capital sigma becomes a final sigma when it ends a word: some
cased letter precedes it and none follows it, where characters that ignore case are passed over.
-/
namespace ApiPages.Text

/-- Whether a letter has case. -/
def isCased (character : Char) : Bool := CaseData.covers CaseData.cased character.toNat

/-- Whether a character is passed over in the search for a cased letter. -/
def isCaseIgnorable (character : Char) : Bool :=
  CaseData.covers CaseData.caseIgnorable character.toNat

/-- The small letter of a capital in the simple mapping; any other character is its own. -/
def smallLetter (character : Char) : Char :=
  let code := character.toNat
  match CaseData.capitals.find? (·.contains code) with
  | some capitals => Char.ofNat ((code : Int) + capitals.shift).toNat
  | none => character

/-- The capital sigma. -/
def capitalSigma : Char := Char.ofNat 0x3A3

/-- The small sigma inside a word. -/
def smallSigma : Char := Char.ofNat 0x3C3

/-- The small sigma at the end of a word. -/
def finalSigma : Char := Char.ofNat 0x3C2

/-- The lowercase form of a character by itself. -/
def lowercaseCharacter (character : Char) : Text :=
  if character.toNat = 0x130 then ['i', Char.ofNat 0x307] else [smallLetter character]

/-- Whether the first character that does not ignore case is a cased letter. -/
def meetsCased (text : Text) : Bool :=
  match text.dropWhile isCaseIgnorable with
  | [] => false
  | head :: _ => isCased head

/-- Whether a sigma between two texts ends a word; the text before it is given backwards. -/
def endsWord (reversedBefore after : Text) : Bool :=
  meetsCased reversedBefore && !meetsCased after

/-- Lowercases the rest of a text of which `reversedBefore` has been passed. -/
def lowercaseFrom : (reversedBefore : Text) → Text → Text
  | _, [] => []
  | reversedBefore, head :: rest =>
    let small :=
      if head = capitalSigma then
        [if endsWord reversedBefore rest then finalSigma else smallSigma]
      else lowercaseCharacter head
    small ++ lowercaseFrom (head :: reversedBefore) rest

/-- The lowercase form of a text. -/
def lowercase (text : Text) : Text := lowercaseFrom [] text

end ApiPages.Text
