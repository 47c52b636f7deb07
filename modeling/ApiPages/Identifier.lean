import ApiPages.Text.Basic

/-!
# Member identifiers

An identifier names a documented member: a kind, a colon, and a dotted path that may carry a
parameter list, as in `M:Shapes.Circle.Scale(System.Double)`. Decoding drops the parameter list,
takes the last segment of the path as the name and the rest as the namespace; members other than
types lose their declaring type, the segment before the name. Any kind decodes, but only five of
them have a section in a page.
-/
namespace ApiPages

/-- The kinds of members that have a section in a page. -/
inductive MemberKind where
  /-- A type. -/
  | type
  /-- A method. -/
  | method
  /-- A property. -/
  | property
  /-- A field. -/
  | field
  /-- An event. -/
  | event
deriving DecidableEq, Repr

namespace MemberKind

/-- The letter that stands for a kind in identifiers. -/
def code : MemberKind → Text
  | type => ['T']
  | method => ['M']
  | property => ['P']
  | field => ['F']
  | event => ['E']

/-- The word for a kind in headings. -/
def label : MemberKind → Text
  | type => "Type".toList
  | method => "Method".toList
  | property => "Property".toList
  | field => "Field".toList
  | event => "Event".toList

/-- All kinds. -/
def all : List MemberKind := [type, method, property, field, event]

/-- The kind of a letter. -/
def ofCode? (code : Text) : Option MemberKind := all.find? fun kind => kind.code = code

/-- The letter of each kind leads back to it, and no other text leads to a kind. -/
theorem ofCode?_eq_some_iff {code : Text} {kind : MemberKind} :
    ofCode? code = some kind ↔ code = kind.code := by
  constructor
  · intro found
    simp only [ofCode?] at found
    simpa [eq_comm] using List.find?_some found
  · rintro rfl
    cases kind <;> rfl

end MemberKind

/-- Why an identifier cannot be decoded. -/
inductive IdentifierError where
  /-- No kind stands before a colon. -/
  | missingKind (raw : Text)
  /-- The path ends without a name. -/
  | emptyPath (raw : Text)
  /-- The path of a member other than a type is a name only. -/
  | missingDeclaringType (raw : Text)
deriving DecidableEq

/-- The wording of an identifier error. -/
def IdentifierError.message : IdentifierError → Text
  | missingKind raw => "identifier `".toList ++ raw ++ "` has no member kind prefix".toList
  | emptyPath raw => "identifier `".toList ++ raw ++ "` has an empty member path".toList
  | missingDeclaringType raw => "identifier `".toList ++ raw ++ "` has no declaring type".toList

/-- A decoded identifier. -/
structure Identifier where
  /-- The text before the first colon, which need not be one of the known kinds. -/
  kind : Text
  /-- The dotted namespace, empty for the global one. -/
  space : Text
  /-- The last segment of the path, with the mark of a generic member. -/
  name : Text
deriving DecidableEq

/-- The mark between a generic name and the number of its parameters. -/
def genericMark : Char := '\x60'

/-- A text up to its first generic mark. -/
def withoutArity (text : Text) : Text := text.before genericMark

namespace Identifier

/-- What follows a closing parenthesis that is reached before any opening one. -/
def afterClosing : Text → Option Text
  | [] => none
  | head :: rest =>
    if head = ')' then some rest else if head = '(' then none else afterClosing rest

/-- A path without its leftmost parameter list that holds no other one. -/
def withoutParameters : Text → Text
  | [] => []
  | head :: rest =>
    match if head = '(' then afterClosing rest else none with
    | some following => following
    | none => head :: withoutParameters rest

/-- Decodes an identifier. -/
def decode (raw : Text) : Except IdentifierError Identifier :=
  match raw.cutAt ':' with
  | none | some ([], _) => .error (.missingKind raw)
  | some (kind, path) =>
    match ((withoutParameters path).splitOn '.').reverse with
    | [] | [] :: _ => .error (.emptyPath raw)
    | name :: outer =>
      if kind = MemberKind.type.code then
        .ok ⟨kind, Text.joinWith ['.'] outer.reverse, name⟩
      else
        match outer with
        | [] => .error (.missingDeclaringType raw)
        | _ :: spaces => .ok ⟨kind, Text.joinWith ['.'] spaces.reverse, name⟩

/-- The kind, if it is one that has a section in a page. -/
def memberKind? (identifier : Identifier) : Option MemberKind := MemberKind.ofCode? identifier.kind

/-- The name up to the generic mark. -/
def baseName (identifier : Identifier) : Text := withoutArity identifier.name

/-- Whether the name carries a generic mark. -/
def isGeneric (identifier : Identifier) : Bool := identifier.name.contains genericMark

end Identifier
end ApiPages
