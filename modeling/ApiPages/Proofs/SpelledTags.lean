import ApiPages.Proofs.Cutting
import ApiPages.Proofs.SpelledGlyphs

/-!
# Reading tags back

A tag is read up to its end, whatever white space stands in it, in whatever order its attributes
stand and however their values are written. What follows the tag stays as it is.
-/
namespace ApiPages.Xml

/-! ### Where readers stop -/

/-- A text whose first character, if it has one, fails a test. -/
def Stops (test : Char → Bool) (text : Text) : Prop := ∀ head ∈ text.head?, test head = false

namespace Stops

variable {test : Char → Bool} {first rest : Text}

/-- There is nothing to read at the end of a text. -/
theorem nil : Stops test [] := by simp [Stops]

/-- Reading stops at a character that fails the test. -/
theorem cons {head : Char} (fails : test head = false) (rest : Text) :
    Stops test (head :: rest) := by
  intro first same
  obtain rfl := Option.some.inj same
  exact fails

/-- A text that stops goes on stopping behind another one that does. -/
theorem append (early : Stops test first) (late : Stops test rest) :
    Stops test (first ++ rest) := by
  cases first with
  | nil => exact late
  | cons head others => exact .cons (early head rfl) _

/-- Behind characters that all pass, the test ends where a text stops. -/
theorem takeWhile_append (passes : ∀ character ∈ first, test character = true)
    (stops : Stops test rest) : (first ++ rest).takeWhile test = first := by
  rw [List.takeWhile_append_of_pos passes]
  cases rest with
  | nil => simp
  | cons head others => simp [stops head rfl]

/-- What passes the test is taken off up to what fails it. -/
theorem dropWhile_append (passes : ∀ character ∈ first, test character = true)
    (stops : Stops test rest) : (first ++ rest).dropWhile test = rest := by
  rw [List.dropWhile_append_of_pos passes]
  cases rest with
  | nil => rfl
  | cons head others => simp [stops head rfl]

end Stops

/-- White space is a blank, a tabulator or a line end. -/
theorem isSpace_cases {character : Char} (space : isSpace character = true) :
    character = ' ' ∨ character = '\t' ∨ character = '\n' ∨ character = '\r' := by
  simpa [isSpace, or_assoc] using space

/-- White space continues no name. -/
theorem continuesName_of_isSpace {character : Char} (space : isSpace character = true) :
    continuesName character = false := by
  rcases isSpace_cases space with rfl | rfl | rfl | rfl <;> decide

/-- A name ends before white space, and where none comes, before what follows. -/
theorem IsWhite.stops {space rest : Text} (white : IsWhite space)
    (stops : Stops continuesName rest) : Stops continuesName (space ++ rest) :=
  .append (fun head first => continuesName_of_isSpace (white head (List.mem_of_mem_head? first)))
    stops

/-- What starts a name is no white space. -/
theorem not_isSpace_of_startsName {character : Char} (starts : startsName character = true) :
    isSpace character = false := by
  cases space : isSpace character with
  | false => rfl
  | true =>
    have continues := continuesName_of_isSpace space
    rw [continuesName, starts, Bool.true_or] at continues
    cases continues

/-- A name begins with a character that starts names, and all of its characters continue names. -/
theorem exists_of_isName {name : Text} (named : isName name = true) :
    ∃ head rest, name = head :: rest ∧ startsName head = true ∧
      (∀ character ∈ name, continuesName character = true) ∧
      ∀ character ∈ rest, continuesName character = true := by
  cases name with
  | nil => cases named
  | cons head rest =>
    obtain ⟨starts, all⟩ := Bool.and_eq_true_iff.1 named
    have others : ∀ character ∈ rest, continuesName character = true := List.all_eq_true.1 all
    have own : continuesName head = true := by rw [continuesName, starts, Bool.true_or]
    exact ⟨head, rest, rfl, starts, List.forall_mem_cons.2 ⟨own, others⟩, others⟩

namespace Reader

/-- White space is left out up to what is none. -/
theorem skipSpaces_append {space rest : Text} (white : IsWhite space) (stops : Stops isSpace rest) :
    skipSpaces (space ++ rest) = rest :=
  stops.dropWhile_append white

/-- Nothing is left out where no white space comes next. -/
theorem skipSpaces_eq {text : Text} (stops : Stops isSpace text) : skipSpaces text = text :=
  @skipSpaces_append [] text nofun stops

/-- White space of at least one character is left out up to what is none. -/
theorem spaces_append {gap rest : Text} (apart : IsGap gap) (stops : Stops isSpace rest) :
    spaces (gap ++ rest) = some rest := by
  obtain ⟨white, filled⟩ := apart
  cases gap with
  | nil => exact absurd rfl filled
  | cons head others =>
    obtain ⟨own, rest'⟩ := List.forall_mem_cons.1 white
    rw [List.cons_append, spaces, if_pos own, skipSpaces_append rest' stops]

/-- A mark is taken off the text that it starts. -/
theorem exactly_append (mark rest : Text) : exactly mark (mark ++ rest) = some rest :=
  Text.dropStart?_eq_some_iff.2 rfl

/-- A name is taken up to what does not continue it. -/
theorem name_append {target rest : Text} (named : isName target = true)
    (stops : Stops continuesName rest) : name (target ++ rest) = some (target, rest) := by
  obtain ⟨head, others, rfl, starts, -, all⟩ := exists_of_isName named
  rw [List.cons_append, name, if_pos starts, stops.takeWhile_append all,
    stops.dropWhile_append all]

/-- A name without a colon is taken as one without a qualifier. -/
theorem qualifiedName_append {name rest : Text} (plain : IsPlainName name)
    (stops : Stops continuesName rest) :
    qualifiedName (name ++ rest) = some (⟨[], name⟩, rest) := by
  obtain ⟨named, colon⟩ := plain
  obtain ⟨head, others, rfl, starts, all, -⟩ := exists_of_isName named
  have word : QualifiedName.ofWord? (head :: others) = some ⟨[], head :: others⟩ := by
    rw [QualifiedName.ofWord?, List.splitOn_eq_singleton colon]
    simp [beginsName, starts]
  rw [qualifiedName, stops.takeWhile_append all, stops.dropWhile_append all, word]
  rfl

/-- A quoted text is taken up to the second mark. -/
theorem quoted_append {quote : Char} (mark : IsQuote quote) {value : Text} (absent : quote ∉ value)
    (rest : Text) : quoted (quote :: value ++ quote :: rest) = some (value, rest) := by
  have known : isQuote quote = true := by rcases mark with rfl | rfl <;> rfl
  rw [List.cons_append, quoted, if_pos known, Text.cutAt_append absent]

/-- White space may stand on both sides of the equals sign between a name and a quoted text. -/
theorem exists_assigned {name before after : Text} {quote : Char} (plain : IsPlainName name)
    (white : IsWhite before) (white' : IsWhite after) (mark : IsQuote quote) (rest : Text) :
    ∃ afterName afterSign,
      qualifiedName (name ++ (before ++ '=' :: (after ++ quote :: rest))) =
        some (⟨[], name⟩, afterName) ∧
      exactly ['='] (skipSpaces afterName) = some afterSign ∧
      skipSpaces afterSign = quote :: rest := by
  have opening : Stops isSpace (quote :: rest) :=
    .cons (by rcases mark with rfl | rfl <;> decide) rest
  have sign : Stops isSpace ('=' :: (after ++ quote :: rest)) := .cons (by decide) _
  have named : Stops continuesName (before ++ '=' :: (after ++ quote :: rest)) :=
    white.stops (.cons (by decide) _)
  refine ⟨_, _, qualifiedName_append plain named, ?_, skipSpaces_append white' opening⟩
  rw [skipSpaces_append white sign]
  exact exactly_append ['='] (after ++ quote :: rest)

/-- A text is taken up to an ending whose last sign occurs only at its end. -/
theorem upTo_append (stem : Text) (last : Char) {content : Text} (fresh : last ∉ stem)
    (writable : IsWritable content) (absent : ¬ stem ++ [last] <:+: content) (rest : Text) :
    upTo (stem ++ [last]) (content ++ (stem ++ last :: rest)) = some (content, rest) := by
  rw [upTo, Text.cutAtText_append fresh absent]
  exact if_pos (List.all_eq_true.2 writable)

end Reader

/-! ### Attributes -/

/-- An attribute as it is read: it has no qualifier, and its glyphs show its value. -/
def ReadsAs (raw : RawAttribute) (entry : Text × Text) : Prop :=
  raw.1 = ⟨[], entry.1⟩ ∧
    ∃ quote, List.Forall₂ (Glyph.Shows (PlainInValue quote)) raw.2 entry.2

/-- A name without a colon and a value that can be written. -/
def IsWritableEntry (entry : Text × Text) : Prop := IsPlainName entry.1 ∧ IsWritable entry.2

namespace Reader

/-- The value between two marks is read as glyphs that show it. -/
theorem exists_attributeValue {quote : Char} (mark : IsQuote quote) {value source : Text}
    (spelled : Spells (PlainInValue quote) value source) (writable : IsWritable value) :
    ∃ glyphs, List.Forall₂ (Glyph.Shows (PlainInValue quote)) glyphs value ∧
      ∀ rest, attributeValue (quote :: source ++ quote :: rest) = some (glyphs, rest) := by
  obtain ⟨glyphs, read, shown⟩ := Glyph.exists_read spelled writable (by simp [PlainInValue])
  refine ⟨glyphs, shown, fun rest => ?_⟩
  have absent : quote ∉ source :=
    spelled.notMem (by simp [PlainInValue]) (by rcases mark with rfl | rfl <;> decide)
  have bracket : '<' ∉ source := spelled.notMem (by simp [PlainInValue]) (by decide)
  have all : source.all isCharacter = true := List.all_eq_true.2 (spelled.isWritable writable)
  have noBracket : source.contains '<' = false := by simpa using bracket
  rw [attributeValue, quoted_append mark absent]
  simp only [Option.bind_eq_bind, Option.bind_some, all, noBracket, read, Bool.not_false,
    Bool.and_self, if_true]

/-- A tag goes on with an attribute where a name comes next behind white space. -/
theorem tagStep_of_startsName {gap rest : Text} {head : Char} (apart : IsGap gap)
    (starts : startsName head = true) :
    tagStep (gap ++ head :: rest) = (rawAttribute (gap ++ head :: rest)).map
      fun (taken, rest) => (.item taken, rest) := by
  have next : skipSpaces (gap ++ head :: rest) = head :: rest :=
    skipSpaces_append apart.1 (.cons (not_isSpace_of_startsName starts) _)
  have filled : (gap ++ head :: rest).isEmpty = false := by simp
  have notClosed : head ≠ '/' := by
    rintro rfl
    exact absurd starts (by decide)
  have notOpened : head ≠ '>' := by
    rintro rfl
    exact absurd starts (by decide)
  rw [tagStep, next, filled]
  split
  · contradiction
  · rename_i ending
    exact absurd (List.head_eq_of_cons_eq ending) notClosed
  · rename_i ending
    exact absurd (List.head_eq_of_cons_eq ending) notOpened
  · rfl

/-- An attribute behind white space is read. -/
theorem exists_tagStep {entry : Text × Text} {source : Text}
    (spelled : SpellsAttribute entry source) (writable : IsWritableEntry entry) :
    ∃ raw, ReadsAs raw entry ∧
      ∀ gap rest, IsGap gap → tagStep (gap ++ (source ++ rest)) = some (.item raw, rest) := by
  cases spelled with
  | @mk name value before after source quote white white' mark spelled =>
    have plain : IsPlainName name := writable.1
    obtain ⟨glyphs, shown, taken⟩ := exists_attributeValue mark spelled writable.2
    obtain ⟨head, others, first, starts, -⟩ := exists_of_isName plain.1
    refine ⟨(⟨[], name⟩, glyphs), ⟨rfl, quote, shown⟩, fun gap rest apart => ?_⟩
    obtain ⟨afterName, afterSign, word, sign, opening⟩ :=
      exists_assigned plain white white' mark (source ++ quote :: rest)
    have whole : name ++ before ++ '=' :: after ++ quote :: source ++ [quote] ++ rest =
        name ++ (before ++ '=' :: (after ++ quote :: (source ++ quote :: rest))) := by simp
    have visible : Stops isSpace
        (name ++ (before ++ '=' :: (after ++ quote :: (source ++ quote :: rest)))) := by
      rw [first]
      exact .cons (not_isSpace_of_startsName starts) _
    have raw : rawAttribute (gap ++ (name ++ before ++ '=' :: after ++ quote :: source ++ [quote] ++
        rest)) = some ((⟨[], name⟩, glyphs), rest) := by
      rw [whole]
      have value := taken rest
      rw [List.cons_append] at value
      simp only [rawAttribute, spaces_append apart visible, word, sign, opening, value,
        Option.bind_eq_bind, Option.bind_some]
    rw [first] at raw ⊢
    simp only [List.cons_append] at raw ⊢
    rw [tagStep_of_startsName apart starts, raw]
    rfl

/-- The attributes of a tag are read up to its end. -/
theorem exists_attributes {entries : List (Text × Text)} {tag : Text}
    (spelled : SpellsAttributes entries tag) (writable : ∀ entry ∈ entries, IsWritableEntry entry) :
    ∃ raws, List.Forall₂ ReadsAs raws entries ∧
      ∀ ending last rest, tagStep ending = some (.finish last, rest) →
        attributes (tag ++ ending) = some ((raws, last), rest) := by
  induction spelled with
  | nil =>
    refine ⟨[], .nil, fun ending last rest found => ?_⟩
    rw [List.nil_append, attributes, repeated_finish tagStep_shortens found]
    rfl
  | @cons entry entries gap source following apart first rest ih =>
    obtain ⟨own, others⟩ := List.forall_mem_cons.1 writable
    obtain ⟨raw, reads, taken⟩ := exists_tagStep first own
    obtain ⟨raws, all, row⟩ := ih others
    refine ⟨raw :: raws, .cons reads all, fun ending last rest found => ?_⟩
    have step := taken gap (following ++ ending) apart
    have later := row ending last rest found
    rw [attributes, Option.map_eq_some_iff] at later
    obtain ⟨⟨items, finish, left⟩, repeated, same⟩ := later
    rw [List.append_assoc, List.append_assoc, attributes, repeated_item tagStep_shortens step,
      repeated]
    simp only [Prod.mk.injEq] at same
    obtain ⟨⟨rfl, rfl⟩, rfl⟩ := same
    rfl

/-- A tag that opens an element ends with a greater-than sign. -/
theorem tagStep_opened {space : Text} (white : IsWhite space) (rest : Text) :
    tagStep (space ++ '>' :: rest) = some (.finish .opened, rest) := by
  have next : skipSpaces (space ++ '>' :: rest) = '>' :: rest :=
    skipSpaces_append white (.cons (by decide) _)
  have filled : (space ++ '>' :: rest).isEmpty = false := by simp
  rw [tagStep, next, filled]
  rfl

/-- A tag that also closes its element ends with a slash and a greater-than sign. -/
theorem tagStep_closed {space : Text} (white : IsWhite space) (rest : Text) :
    tagStep (space ++ '/' :: '>' :: rest) = some (.finish .closed, rest) := by
  have next : skipSpaces (space ++ '/' :: '>' :: rest) = '/' :: '>' :: rest :=
    skipSpaces_append white (.cons (by decide) _)
  have filled : (space ++ '/' :: '>' :: rest).isEmpty = false := by simp
  rw [tagStep, next, filled]
  rfl

end Reader

/-- Attributes stop a name. -/
theorem SpellsAttributes.stops {entries : List (Text × Text)} {tag ending : Text}
    (spelled : SpellsAttributes entries tag) (stops : Stops continuesName ending) :
    Stops continuesName (tag ++ ending) := by
  cases spelled with
  | nil => exact stops
  | @cons entry entries gap source following apart first rest =>
    obtain ⟨white, filled⟩ := apart
    cases gap with
    | nil => exact absurd rfl filled
    | cons head others =>
      exact .cons (continuesName_of_isSpace (white head List.mem_cons_self)) _

/-! ### Lexemes -/

namespace Lexeme

/-- What starts a name is none of the signs that follow a less-than sign in other markup. -/
theorem ne_of_startsName {head : Char} (starts : startsName head = true) :
    ∀ sign ∈ ['!', '?', '/'], sign ≠ head := by
  rintro sign listed rfl
  have marks : ∀ sign ∈ ['!', '?', '/'], startsName sign = false :=
    List.all_iff_forall_prop.1 (by decide)
  rw [marks _ listed] at starts
  cases starts

/-- What follows a less-than sign that begins a name is an opening tag. -/
theorem take_opening {head : Char} (starts : startsName head = true) (rest : Text) :
    take ('<' :: head :: rest) = openingTag (head :: rest) := by
  have exclamation : '!' ≠ head := ne_of_startsName starts _ (by decide)
  have question : '?' ≠ head := ne_of_startsName starts _ (by decide)
  have slash : '/' ≠ head := ne_of_startsName starts _ (by decide)
  simp [take, Reader.announced, markup, gaps, Reader.exactly, Text.dropStart?, exclamation,
    question, slash]

/-- What follows a less-than sign and a slash is a closing tag. -/
theorem take_closing (rest : Text) : take ('<' :: '/' :: rest) = closingTag rest := by
  simp [take, Reader.announced, markup, gaps, Reader.exactly, Text.dropStart?]

/-- An opening tag is read up to its end. -/
theorem exists_opening {name tag : Text} {entries : List (Text × Text)} (plain : IsPlainName name)
    (spelled : SpellsAttributes entries tag) (writable : ∀ entry ∈ entries, IsWritableEntry entry) :
    ∃ raws, List.Forall₂ ReadsAs raws entries ∧ ∀ space rest, IsWhite space →
      take ('<' :: name ++ tag ++ space ++ '>' :: rest) =
        some (.opening ⟨[], name⟩ raws false, rest) ∧
      take ('<' :: name ++ tag ++ space ++ '/' :: '>' :: rest) =
        some (.opening ⟨[], name⟩ raws true, rest) := by
  obtain ⟨raws, reads, attributes⟩ := Reader.exists_attributes spelled writable
  obtain ⟨head, others, first, starts, -⟩ := exists_of_isName plain.1
  have unqualified : ([] : Text) ≠ declaration := by decide
  have taken : ∀ (closed : Bool) ending rest, Stops continuesName ending →
      Reader.tagStep ending = some (.finish (if closed then .closed else .opened), rest) →
      take ('<' :: name ++ tag ++ ending) = some (.opening ⟨[], name⟩ raws closed, rest) := by
    intro closed ending rest stops found
    have whole : '<' :: name ++ tag ++ ending = '<' :: head :: (others ++ tag ++ ending) := by
      simp [first]
    have named : Reader.qualifiedName (head :: (others ++ tag ++ ending)) =
        some (⟨[], name⟩, tag ++ ending) := by
      rw [← Reader.qualifiedName_append plain (spelled.stops stops), first]
      simp
    rw [whole, take_opening starts, openingTag, named]
    cases closed <;>
      simp only [Option.bind_eq_bind, Option.bind_some, attributes ending _ rest found,
        if_neg unqualified] <;> rfl
  refine ⟨raws, reads, fun space rest white => ⟨?_, ?_⟩⟩
  · rw [List.append_assoc _ space]
    exact taken false _ _ (white.stops (.cons (by decide) _)) (Reader.tagStep_opened white rest)
  · rw [List.append_assoc _ space]
    exact taken true _ _ (white.stops (.cons (by decide) _)) (Reader.tagStep_closed white rest)

/-- A closing tag is read up to its end. -/
theorem take_closing_append {name space : Text} (plain : IsPlainName name) (white : IsWhite space)
    (rest : Text) :
    take ('<' :: '/' :: (name ++ (space ++ '>' :: rest))) = some (.closing ⟨[], name⟩, rest) := by
  have ending : Stops isSpace ('>' :: rest) := .cons (by decide) _
  have stops : Stops continuesName (space ++ '>' :: rest) := white.stops (.cons (by decide) _)
  rw [take_closing, closingTag, Reader.qualifiedName_append plain stops]
  simp only [Option.bind_eq_bind, Option.bind_some, Reader.skipSpaces_append white ending,
    Reader.exactly, Text.dropStart?, if_true]

end Lexeme

end ApiPages.Xml
