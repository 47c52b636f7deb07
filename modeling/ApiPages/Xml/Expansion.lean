import ApiPages.Xml.Lexeme

/-!
# Resolving references

Resolving the references of lexemes gives lexemes of plain texts. In running text a line end becomes
a line feed; in an attribute value a tab or a line end becomes a space. A reference to an entity in
running text is replaced by the lexemes of the entity's text, which need not match among themselves:
an entity may open an element that another one closes. A reference in an attribute value is replaced
by the text of the entity as a value. Characters that a reference gives stay as they are, except
inside an entity, where they are treated like characters of its text and must not give a less-than
sign to an attribute value. Entities may nest ten deep, and one reference in the document may lead
to at most 255 others.
-/
namespace ApiPages.Xml

/-- A lexeme in which all references have been resolved. Neighbouring texts belong together. -/
abbrev PlainLexeme := Lexeme Text Text

/-- A computation that may fail and counts down the references that may still be followed. -/
abbrev Counted (α : Type) := StateT Nat Option α

/-- The texts of entities. -/
abbrev Entities := List (Text × Text)

namespace Entities

/-- The text of an entity; its first declaration counts. -/
def textOf? (entities : Entities) (name : Text) : Option Text :=
  (entities.find? (·.1 = name)).map (·.2)

/-- How deep entities may nest. -/
def maxDepth : Nat := 10

/-- How many other references one reference in a document may lead to. -/
def maxReferences : Nat := 255

end Entities

/-- A resolved item of running text. -/
inductive Piece where
  /-- A character. -/
  | character (character : Char)
  /-- A place for the lexemes of an entity. -/
  | entity (name : Text)
deriving DecidableEq

namespace Glyph

/-- The glyph of a character inside an entity, where it does not matter how it was written. -/
def inEntity : Glyph → Glyph
  | referred character => plain character
  | glyph => glyph

/-- Settles the line ends of running text, where `afterReference` says whether a reference to a
character has just been passed. A carriage return makes one line feed with a line feed after it,
and one of its own before any other character that stands for itself or at the end. It stays in
front of a reference, and at the end directly behind one. -/
def settleLineEnds : (afterReference : Bool) → List Glyph → List Piece
  | _, [] => []
  | _, entity name :: rest => .entity name :: settleLineEnds false rest
  | _, referred character :: rest => .character character :: settleLineEnds true rest
  | afterReference, plain character :: rest =>
    if character = '\r' then
      match rest with
      | [] => [.character (if afterReference then '\r' else '\n')]
      | plain following :: _ =>
        if following = '\n' then settleLineEnds false rest
        else .character '\n' :: settleLineEnds false rest
      | _ => .character '\r' :: settleLineEnds false rest
    else .character character :: settleLineEnds false rest

/-- Drops each carriage return before a line feed. -/
def joinLineEnds : List Glyph → List Glyph
  | [] => []
  | plain character :: rest =>
    if character = '\r' ∧ rest.head? = some (plain '\n') then joinLineEnds rest
    else plain character :: joinLineEnds rest
  | glyph :: rest => glyph :: joinLineEnds rest

end Glyph

/-- Settles the line ends of a verbatim section. -/
def settleVerbatim (content : Text) : Text :=
  (Glyph.settleLineEnds false (content.map .plain)).filterMap fun
    | .character character => some character
    | .entity _ => none

/-- A character of an attribute value that stands for itself. -/
def attributeCharacter (character : Char) : Char :=
  if character = '\t' ∨ character = '\n' ∨ character = '\r' then ' ' else character

/-- Counts one reference. -/
def countReference : Counted Unit := fun left =>
  match left with
  | 0 => none
  | left + 1 => some ((), left)

/-- Resolves an attribute value inside an entity, where `depth` more entities may nest. -/
def expandInnerValue (entities : Entities) : (depth : Nat) → List Glyph → Counted Text
  | depth, glyphs =>
    (Glyph.joinLineEnds glyphs).mapM (fun
      | .plain character => pure [attributeCharacter character]
      | .referred character =>
        if character = '<' then failure else pure [attributeCharacter character]
      | .entity name =>
        match depth with
        | 0 => failure
        | depth + 1 => do
          countReference
          let inner ← entities.textOf? name
          let glyphs ← Glyph.read inner
          expandInnerValue entities depth glyphs) >>= fun texts => pure texts.flatten

/-- Resolves an attribute value of a document. -/
def expandValue (entities : Entities) (glyphs : List Glyph) : Counted Text := do
  let texts ← (Glyph.joinLineEnds glyphs).mapM fun
    | .plain character => pure [attributeCharacter character]
    | .referred character => pure [character]
    | .entity name => do
      set Entities.maxReferences
      let inner ← entities.textOf? name
      let glyphs ← Glyph.read inner
      expandInnerValue entities (Entities.maxDepth - 1) glyphs
  pure texts.flatten

/-- Resolves a lexeme, given how runs of text are settled and how entities and attribute values are
resolved. -/
def expandLexeme (settle : List Glyph → List Piece)
    (expandEntity : Text → Counted (List PlainLexeme))
    (expandAttribute : List Glyph → Counted Text) : RawLexeme → Counted (List PlainLexeme)
  | .text (.run glyphs) => do
    let lexemes ← (settle glyphs).mapM fun
      | .character character => pure [.text [character]]
      | .entity name => expandEntity name
    pure lexemes.flatten
  | .text (.verbatim content) => pure [.text (settleVerbatim content)]
  | .gap => pure [.gap]
  | .closing name => pure [.closing name]
  | .opening name attributes closed => do
    let values ← attributes.mapM fun (name, glyphs) => do pure (name, ← expandAttribute glyphs)
    pure [.opening name values closed]
  | .cutOff attributes => do
    let values ← attributes.mapM fun (name, glyphs) => do pure (name, ← expandAttribute glyphs)
    pure [.cutOff values]

/-- Resolves lexemes inside an entity, where `depth` more entities may nest. -/
def expandInner (entities : Entities) (depth : Nat) (lexemes : List RawLexeme) :
    Counted (List PlainLexeme) := do
  let expanded ← lexemes.mapM <|
    expandLexeme (fun glyphs => Glyph.settleLineEnds false (glyphs.map Glyph.inEntity))
      (fun name =>
        match depth with
        | 0 => failure
        | depth + 1 => do
          countReference
          let inner ← entities.textOf? name
          let lexemes ← Lexeme.ofEntity? inner
          expandInner entities depth lexemes)
      (expandInnerValue entities depth)
  pure expanded.flatten

/-- Resolves the lexemes of a document. -/
def expand (entities : Entities) (lexemes : List RawLexeme) : Option (List PlainLexeme) :=
  (do
    let expanded ← lexemes.mapM <|
      expandLexeme (Glyph.settleLineEnds false)
        (fun name => do
          set Entities.maxReferences
          let inner ← entities.textOf? name
          let lexemes ← Lexeme.ofEntity? inner
          expandInner entities (Entities.maxDepth - 1) lexemes)
        (expandValue entities)
    pure expanded.flatten : Counted (List PlainLexeme)).run' 0

end ApiPages.Xml
