import ApiPages.Identifier
import ApiPages.Text.Lowercase

/-!
# Anchors and links

The section of a member carries an anchor, its namespace and name joined by a dot in lowercase, and
links lead to that anchor.
-/
namespace ApiPages.Markdown

/-- The anchor of a member. -/
def anchor (space name : Text) : Text := Text.lowercase (space ++ '.' :: name)

/-- A link inside a page. -/
def link (text target : Text) : Text := '[' :: text ++ "](#".toList ++ target ++ [')']

/-- The line of a member in an index, without its line end. -/
def indexItem (kind : MemberKind) (text target : Text) : Text :=
  "* ".toList ++ kind.label ++ ": ".toList ++ link text target

/-- A name with the anchor that links lead to. -/
def anchoredName (space name : Text) : Text :=
  "<a name=\"".toList ++ anchor space name ++ "\"></a>".toList ++ name

end ApiPages.Markdown
