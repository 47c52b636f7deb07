import ApiPages.Identifier

/-!
# Short references

A reference to a member is shown by the last segment of its path: the kind, a parameter list at the
very end, and everything from the first generic mark on are left out.
-/
namespace ApiPages.Markdown

/-- A path without the parameter list that ends it: the part before the first opening parenthesis
from which the text runs on one line to a closing parenthesis at its end. -/
def withoutFinalParameters : Text → Text
  | [] => []
  | head :: rest =>
    if head = '(' ∧ rest.getLast? = some ')' ∧ '\n' ∉ rest then []
    else head :: withoutFinalParameters rest

/-- A reference without the kind before its first colon. -/
def referencePath (reference : Text) : Text :=
  match reference.cutAt ':' with
  | some (_, path) => path
  | none => reference

/-- The short form of a reference. -/
def shortReference (reference : Text) : Text :=
  (withoutArity (withoutFinalParameters (referencePath reference))).afterLast '.'

end ApiPages.Markdown
