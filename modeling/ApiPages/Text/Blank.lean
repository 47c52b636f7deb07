import ApiPages.Text.Basic

/-!
# White space

White space is the Unicode property `White_Space`. A blank text holds nothing else. Trimming cuts
white space off the ends of a text, and collapsing writes every run of it as one space.
-/
namespace ApiPages.Text

/-- Whether a character has the property `White_Space`. -/
def isSpace (character : Char) : Bool :=
  let code := character.toNat
  (0x09 ≤ code && code ≤ 0x0D) || code == 0x20 || code == 0x85 || code == 0xA0 ||
    code == 0x1680 || (0x2000 ≤ code && code ≤ 0x200A) || code == 0x2028 || code == 0x2029 ||
    code == 0x202F || code == 0x205F || code == 0x3000

/-- Whether a text holds white space only. -/
def isBlank (text : Text) : Bool := text.all isSpace

/-- A text without the white space at its start. -/
def trimStart (text : Text) : Text := text.dropWhile isSpace

/-- A text without the white space at its end. -/
def trimEnd (text : Text) : Text := (text.reverse.dropWhile isSpace).reverse

/-- A text without the white space at its ends. -/
def trim (text : Text) : Text := trimEnd (trimStart text)

/-- Collapses the runs of white space, where `spaced` says whether the run under way has already
been written. -/
def collapseFrom : (spaced : Bool) → Text → Text
  | _, [] => []
  | spaced, head :: rest =>
    if isSpace head then
      if spaced then collapseFrom true rest else ' ' :: collapseFrom true rest
    else head :: collapseFrom false rest

/-- Writes every run of white space as a single space. -/
def collapse (text : Text) : Text := collapseFrom false text

end ApiPages.Text
