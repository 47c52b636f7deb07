import ApiPages.Correction
import ApiPages.Markdown.Anchor
import ApiPages.Markdown.Pool

/-!
# Sections and indexes of members

A member has a section in a page if it states a name, a kind that is known and a namespace. The
section opens with a heading that carries the member's anchor, and what is rendered inside the
member follows. The index of a page lists members with links to their anchors; it decides by itself
which members it lists.
-/
namespace ApiPages.Markdown

/-- The text of a section under its heading, with what the heading shows behind the kind. -/
structure Section where
  /-- The name of the member with its anchor. -/
  title : Text
  /-- What is rendered inside the member. -/
  body : Text

/-- Writes a section; a rule opens that of a type. -/
def Section.write (part : Section) (kind : MemberKind) (newline : Text) : Text :=
  match kind with
  | .type =>
    "---".toList ++ newline ++ "#### Type: ".toList ++ part.title ++ newline ++ newline ++
      part.body ++ newline ++ newline
  | .method | .property | .field | .event =>
    "#### ".toList ++ kind.label ++ ": ".toList ++ part.title ++ newline ++ newline ++ newline ++
      part.body ++ newline

/-- Renders a member as its section. -/
def member : Renderer := fun subject => do
  let name ← subject.attribute? Names.name
  let kind ← MemberKind.ofCode? (← subject.attribute? Names.memberType)
  let space ← subject.attribute? Names.space
  some (Section.write ⟨anchoredName space name, subject.children⟩ kind subject.newline)

/-- The line of a member in an index, without its line end, if the member is listed. -/
def indexLine? (member : Element) : Option Text := do
  let name ← member.attribute? Names.name
  let kind ← MemberKind.ofCode? (← member.attribute? Names.memberType)
  let space ← member.attribute? Names.space
  some (indexItem kind name (anchor space name))

/-- The index of the members that are listed, empty when none is. -/
def index (newline : Text) (members : List Element) : Text :=
  match members.filterMap indexLine? with
  | [] => []
  | lines =>
    "## Index".toList ++ newline ++ newline ++ lines.flatMap (fun line => line ++ newline) ++
      newline

end ApiPages.Markdown
