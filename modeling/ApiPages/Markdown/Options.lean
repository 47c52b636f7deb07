import ApiPages.Text.Basic

/-!
# Options of a page

A page is written with one of two line separators, and may begin with an index of its members.
-/
namespace ApiPages

/-- The line separator of a page. -/
inductive Newline where
  /-- A line feed. -/
  | lf
  /-- A carriage return and a line feed. -/
  | crlf
deriving DecidableEq, Repr

/-- A word that names no line separator. -/
structure UnknownNewline where
  /-- The word. -/
  word : Text
deriving DecidableEq

/-- The wording for an unknown line separator. -/
def UnknownNewline.message (unknown : UnknownNewline) : Text :=
  "unknown newline style: ".toList ++ unknown.word ++ ". Use native, lf, or crlf".toList

namespace Newline

/-- The separator that is used when none is asked for. -/
def native : Newline := lf

/-- The characters of a separator. -/
def text : Newline → Text
  | lf => ['\n']
  | crlf => ['\r', '\n']

/-- The separator that a word names. -/
def parse (word : Text) : Except UnknownNewline Newline :=
  if word = "native".toList then .ok native
  else if word = "lf".toList then .ok lf
  else if word = "crlf".toList then .ok crlf
  else .error ⟨word⟩

end Newline

/-- How pages are written. -/
structure Options where
  /-- The line separator. -/
  newline : Newline := .native
  /-- Whether a page begins with an index of its members. -/
  withIndex : Bool := false
deriving DecidableEq

end ApiPages
