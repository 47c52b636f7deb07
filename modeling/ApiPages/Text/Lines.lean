import ApiPages.Text.Blank

/-!
# Lines and indentation

A line ends at a line feed, or at a carriage return directly before one; what follows the last
line end is a line only if it is not empty. Indentation is counted in spaces and tabs. Unindenting
keeps the lines from the first to the last one that is not blank, takes the indentation that they
share off each, and cuts the white space at their ends.
-/
namespace ApiPages.Text

/-- The lines of a text without their line ends. -/
def lines : Text → List Text
  | [] => []
  | '\n' :: rest => [] :: lines rest
  | '\r' :: '\n' :: rest => [] :: lines rest
  | head :: rest =>
    match lines rest with
    | [] => [[head]]
    | first :: others => (head :: first) :: others

/-- Whether a character counts as indentation. -/
def isIndent (character : Char) : Bool := character = ' ' || character = '\t'

/-- The number of spaces and tabs that start a line. -/
def indentation (line : Text) : Nat := (line.takeWhile isIndent).length

/-- The lines from the first to the last one that is not blank. -/
def coreLines (lines : List Text) : List Text :=
  ((lines.dropWhile isBlank).reverse.dropWhile isBlank).reverse

/-- The smallest indentation of the lines that are not blank, zero when all are. -/
def margin (lines : List Text) : Nat :=
  ((lines.filter fun line => !isBlank line).map indentation).min?.getD 0

/-- A line without its first `margin` characters and its trailing white space; a blank line
becomes empty. -/
def shiftLine (margin : Nat) (line : Text) : Text :=
  if isBlank line then [] else trimEnd (line.drop margin)

/-- The lines of an unindented text. -/
def unindentLines (text : Text) : List Text :=
  let kept := coreLines (lines text)
  kept.map (shiftLine (margin kept))

/-- Removes the indentation that all lines share and the blank lines at both ends. -/
def unindent (text : Text) : Text := joinWith ['\n'] (unindentLines text)

end ApiPages.Text
