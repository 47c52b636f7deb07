import ApiPages.Element.Basic
import ApiPages.Xml.Character

/-!
# Spellings of element trees

The same tree of elements can be written in many ways. Attributes stand in any order between any
white space, a character can be written by a reference to it, a text can be cut into runs and
verbatim sections, and comments and processing instructions may stand between nodes; between two
texts one of them must. The relations here follow the grammar of documents and say what a text
spells. They do not say how it is read.
-/
namespace ApiPages.Xml

/-! ### Trees that can be written -/

/-- A name without a colon. -/
def IsPlainName (name : Text) : Prop := isName name = true ∧ ':' ∉ name

instance : DecidablePred IsPlainName := fun name =>
  inferInstanceAs (Decidable (isName name = true ∧ ':' ∉ name))

/-- A text of characters that may occur in a document. -/
def IsWritable (text : Text) : Prop := ∀ character ∈ text, isCharacter character = true

instance : DecidablePred IsWritable := fun text => List.decidableBAll _ text

/-- Attributes whose names have no colon and declare nothing, and whose values can be written. -/
def WritableAttributes (attributes : Dict Text) : Prop :=
  ∀ entry ∈ attributes.entries,
    IsPlainName entry.1 ∧ entry.1 ≠ "xmlns".toList ∧ IsWritable entry.2

/-- A row whose names and texts can be written. No text node is empty. -/
def WritableContent : Content → Prop
  | .nil => True
  | .text own rest => own ≠ [] ∧ IsWritable own ∧ WritableContent rest
  | .element name attributes content rest =>
    IsPlainName name ∧ WritableAttributes attributes ∧ WritableContent content ∧
      WritableContent rest

/-- An element whose names and texts, and those of everything below it, can be written. -/
def WritableElement (element : Element) : Prop :=
  IsPlainName element.name ∧ WritableAttributes element.attributes ∧
    WritableContent element.content

/-! ### Characters -/

/-- The digits in ascending order, with small letters. -/
def smallDigits : Text := "0123456789abcdef".toList

/-- The digits in ascending order, with capital letters. -/
def capitalDigits : Text := "0123456789ABCDEF".toList

/-- A digit of a base with its value. -/
def IsDigit (base : Nat) (sign : Char) (value : Nat) : Prop :=
  value < base ∧ (smallDigits[value]? = some sign ∨ capitalDigits[value]? = some sign)

instance (base : Nat) (sign : Char) (value : Nat) : Decidable (IsDigit base sign value) :=
  inferInstanceAs (Decidable (_ ∧ (_ ∨ _)))

/-- The digits of a number, with any zeros before them. -/
inductive IsNumeral (base : Nat) : Text → Nat → Prop where
  /-- A single digit. -/
  | single {sign : Char} {value : Nat} (digit : IsDigit base sign value) :
      IsNumeral base [sign] value
  /-- A digit behind others. -/
  | behind {digits : Text} {number : Nat} {sign : Char} {value : Nat}
      (front : IsNumeral base digits number) (digit : IsDigit base sign value) :
      IsNumeral base (digits ++ [sign]) (number * base + value)

/-- The names of characters. -/
def characterNames : List (Text × Char) :=
  [("lt".toList, '<'), ("gt".toList, '>'), ("amp".toList, '&'), ("quot".toList, '\x22'),
    ("apos".toList, '\x27')]

/-- What stands between the ampersand and the semicolon of a reference to a character. -/
inductive RefersTo : Char → Text → Prop where
  /-- The decimal digits of its code. -/
  | decimal {character : Char} {digits : Text} (code : IsNumeral 10 digits character.toNat) :
      RefersTo character ('#' :: digits)
  /-- The hexadecimal digits of its code. -/
  | hexadecimal {character : Char} {digits : Text} (code : IsNumeral 16 digits character.toNat) :
      RefersTo character ('#' :: 'x' :: digits)
  /-- Its name. -/
  | named {character : Char} {name : Text} (listed : (name, character) ∈ characterNames) :
      RefersTo character name

/-- A text whose characters stand for themselves, where they may, or are referred to. -/
inductive Spells (plain : Char → Prop) : Text → Text → Prop where
  /-- No character. -/
  | nil : Spells plain [] []
  /-- A character that stands for itself. -/
  | plain {character : Char} {text source : Text} (itself : plain character)
      (rest : Spells plain text source) : Spells plain (character :: text) (character :: source)
  /-- A reference to a character. -/
  | reference {character : Char} {text name source : Text} (refers : RefersTo character name)
      (rest : Spells plain text source) :
      Spells plain (character :: text) ('&' :: name ++ ';' :: source)

/-! ### Attributes -/

/-- White space of any length. -/
def IsWhite (text : Text) : Prop := ∀ character ∈ text, isSpace character = true

instance : DecidablePred IsWhite := fun text => List.decidableBAll _ text

/-- White space of at least one character. -/
def IsGap (text : Text) : Prop := IsWhite text ∧ text ≠ []

instance : DecidablePred IsGap := fun text => inferInstanceAs (Decidable (IsWhite text ∧ text ≠ []))

/-- A quotation mark. -/
def IsQuote (quote : Char) : Prop := quote = '\x22' ∨ quote = '\x27'

/-- The characters that may stand for themselves in an attribute value between two quotation
marks. -/
def PlainInValue (quote character : Char) : Prop :=
  character ∉ ['&', '<', '\t', '\n', '\r', quote]

instance (quote : Char) : DecidablePred (PlainInValue quote) := fun _ =>
  inferInstanceAs (Decidable (¬ _))

/-- The characters that may stand for themselves in running text. -/
def PlainInText (character : Char) : Prop := character ∉ ['&', '<', '\r']

instance : DecidablePred PlainInText := fun _ => inferInstanceAs (Decidable (¬ _))

/-- An attribute with white space around its equals sign, and with quotation marks around its
value. -/
inductive SpellsAttribute : Text × Text → Text → Prop where
  /-- The attribute. -/
  | mk {name value before after source : Text} {quote : Char} (white : IsWhite before)
      (white' : IsWhite after) (mark : IsQuote quote)
      (spelled : Spells (PlainInValue quote) value source) :
      SpellsAttribute (name, value) (name ++ before ++ '=' :: after ++ quote :: source ++ [quote])

/-- A row of attributes, with white space before each of them. -/
inductive SpellsAttributes : List (Text × Text) → Text → Prop where
  /-- No attribute. -/
  | nil : SpellsAttributes [] []
  /-- One more attribute. -/
  | cons {entry : Text × Text} {entries : List (Text × Text)} {gap source following : Text}
      (apart : IsGap gap) (first : SpellsAttribute entry source)
      (rest : SpellsAttributes entries following) :
      SpellsAttributes (entry :: entries) (gap ++ source ++ following)

/-! ### Content -/

/-- A text cut into runs and verbatim sections. Two runs do not follow each other. -/
inductive SpellsText : (afterRun : Bool) → Text → Text → Prop where
  /-- The end of the text. -/
  | nil {afterRun : Bool} : SpellsText afterRun [] []
  /-- A run of characters. -/
  | run {own source text following : Text} (filled : own ≠ [])
      (spelled : Spells PlainInText own source) (absent : ¬ "]]>".toList <:+: source)
      (rest : SpellsText true text following) :
      SpellsText false (own ++ text) (source ++ following)
  /-- A section of characters that all stand for themselves. -/
  | verbatim {afterRun : Bool} {own text following : Text} (noReturn : '\r' ∉ own)
      (absent : ¬ "]]>".toList <:+: own) (rest : SpellsText false text following) :
      SpellsText afterRun (own ++ text)
        ("<![CDATA[".toList ++ own ++ "]]>".toList ++ following)

/-- A comment or a processing instruction. -/
inductive SpellsGap : Text → Prop where
  /-- A comment. -/
  | comment {content : Text} (writable : IsWritable content) (absent : ¬ "--".toList <:+: content)
      (last : content.getLast? ≠ some '-') :
      SpellsGap ("<!--".toList ++ content ++ "-->".toList)
  /-- A processing instruction. Its target is not that of a declaration, and white space parts it
  from anything else. -/
  | instruction {target content : Text} (name : isName target = true)
      (other : target ≠ "xml".toList) (apart : ∀ head ∈ content.head?, isSpace head = true)
      (writable : IsWritable content) (absent : ¬ "?>".toList <:+: content) :
      SpellsGap ("<?".toList ++ target ++ content ++ "?>".toList)

/-- What is spelled: an element, or a row of nodes, which may stand behind a text. -/
inductive Part where
  /-- An element. -/
  | element (element : Element)
  /-- A row. -/
  | row (afterText : Bool) (content : Content)

/-- What a part of a tree may be written as. -/
inductive SpellsPart : Part → Text → Prop where
  /-- An element without content in a single tag. -/
  | closed {name tag space : Text} {attributes : Dict Text} {written : List (Text × Text)}
      (order : written.Perm attributes.entries) (spelled : SpellsAttributes written tag)
      (white : IsWhite space) :
      SpellsPart (.element ⟨name, attributes, .nil⟩)
        ('<' :: name ++ tag ++ space ++ "/>".toList)
  /-- An element between two tags. -/
  | opened {name tag space inner space' : Text} {attributes : Dict Text} {content : Content}
      {written : List (Text × Text)} (order : written.Perm attributes.entries)
      (spelled : SpellsAttributes written tag) (white : IsWhite space)
      (row : SpellsPart (.row false content) inner) (white' : IsWhite space') :
      SpellsPart (.element ⟨name, attributes, content⟩)
        ('<' :: name ++ tag ++ space ++ '>' :: inner ++ "</".toList ++ name ++ space' ++ ['>'])
  /-- The end of a row. -/
  | nil {afterText : Bool} : SpellsPart (.row afterText .nil) []
  /-- A comment or a processing instruction before the rest of a row. -/
  | gap {afterText : Bool} {content : Content} {source following : Text} (gap : SpellsGap source)
      (rest : SpellsPart (.row false content) following) :
      SpellsPart (.row afterText content) (source ++ following)
  /-- A text, which does not stand behind another one. -/
  | text {own source following : Text} {content : Content} (spelled : SpellsText false own source)
      (rest : SpellsPart (.row true content) following) :
      SpellsPart (.row false (.text own content)) (source ++ following)
  /-- An element before the rest of a row. -/
  | child {afterText : Bool} {name source following : Text} {attributes : Dict Text}
      {content rest : Content} (own : SpellsPart (.element ⟨name, attributes, content⟩) source)
      (others : SpellsPart (.row false rest) following) :
      SpellsPart (.row afterText (.element name attributes content rest)) (source ++ following)

/-! ### Documents -/

/-- White space, comments and processing instructions around the root of a document. -/
inductive SpellsOutside : Text → Prop where
  /-- Nothing. -/
  | nil : SpellsOutside []
  /-- White space. -/
  | white {character : Char} {source : Text} (space : isSpace character = true)
      (rest : SpellsOutside source) : SpellsOutside (character :: source)
  /-- A comment or a processing instruction. -/
  | gap {source following : Text} (gap : SpellsGap source) (rest : SpellsOutside following) :
      SpellsOutside (source ++ following)

/-- The characters of a version, of the name of an encoding, and of a word for whether a document
stands alone. -/
def IsLabel (character : Char) : Prop :=
  character.isAlphanum = true ∨ character ∈ ['.', '_', '-']

/-- An item of the declaration of a document, behind white space. -/
inductive SpellsItem (name : Text) : Text → Prop where
  /-- The item. -/
  | mk {gap before after value : Text} {quote : Char} (apart : IsGap gap) (white : IsWhite before)
      (white' : IsWhite after) (mark : IsQuote quote)
      (label : ∀ character ∈ value, IsLabel character) :
      SpellsItem name (gap ++ name ++ before ++ '=' :: after ++ quote :: value ++ [quote])

/-- The declaration of a document: its version, perhaps its encoding, and perhaps whether it stands
alone. -/
inductive SpellsDeclaration : Text → Prop where
  /-- The declaration. -/
  | mk {version encoding standalone space : Text} (first : SpellsItem "version".toList version)
      (second : encoding = [] ∨ SpellsItem "encoding".toList encoding)
      (third : standalone = [] ∨ SpellsItem "standalone".toList standalone)
      (white : IsWhite space) :
      SpellsDeclaration
        ("<?xml".toList ++ version ++ encoding ++ standalone ++ space ++ "?>".toList)

/-- A quoted text behind white space. -/
inductive SpellsLiteral : Text → Prop where
  /-- The text. -/
  | mk {gap value : Text} {quote : Char} (apart : IsGap gap) (mark : IsQuote quote)
      (writable : IsWritable value) (absent : quote ∉ value) :
      SpellsLiteral (gap ++ quote :: value ++ [quote])

/-- Where the rest of a document type is found. -/
inductive SpellsExternal : Text → Prop where
  /-- Its place. -/
  | place {source : Text} (own : SpellsLiteral source) : SpellsExternal ("SYSTEM".toList ++ source)
  /-- A public name before its place. -/
  | called {name source : Text} (first : SpellsLiteral name) (own : SpellsLiteral source) :
      SpellsExternal ("PUBLIC".toList ++ name ++ source)

/-- A document type that declares nothing itself. -/
inductive SpellsDocumentType : Text → Prop where
  /-- One that is found nowhere else either. -/
  | bare {gap name space : Text} (apart : IsGap gap) (named : isName name = true)
      (white : IsWhite space) :
      SpellsDocumentType ("<!DOCTYPE".toList ++ gap ++ name ++ space ++ ['>'])
  /-- One whose rest is found outside the document. -/
  | outside {gap name gap' source space : Text} (apart : IsGap gap) (named : isName name = true)
      (apart' : IsGap gap') (rest : SpellsExternal source) (white : IsWhite space) :
      SpellsDocumentType ("<!DOCTYPE".toList ++ gap ++ name ++ gap' ++ source ++ space ++ ['>'])

/-- What a document with a given root may be written as: perhaps a byte order mark, a declaration
and a document type, then the root, with white space, comments and processing instructions around
it. -/
inductive SpellsDocument : Element → Text → Prop where
  /-- The document. -/
  | mk {element : Element} {mark declaration before kind between source after : Text}
      (start : mark = [] ∨ mark = [Char.ofNat 0xFEFF])
      (declared : declaration = [] ∨ SpellsDeclaration declaration)
      (outside : SpellsOutside before) (typed : kind = [] ∨ SpellsDocumentType kind)
      (outside' : SpellsOutside between) (root : SpellsPart (.element element) source)
      (outside'' : SpellsOutside after) :
      SpellsDocument element (mark ++ declaration ++ before ++ kind ++ between ++ source ++ after)

end ApiPages.Xml
