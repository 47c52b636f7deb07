import ApiPages.Proofs.Spellable
import ApiPages.Proofs.SpelledProlog
import ApiPages.Proofs.SpelledTrees
import ApiPages.Xml.Document

/-!
# Reading undoes writing

What stands before the root of a document is left out, the root is read back, and nothing is left
behind it. So a document is read as its root, whatever it is written as, and there is a way to write
every root.
-/
namespace ApiPages.Xml

open Reader

/-! ### The start of a document -/

/-- Whether a character is a byte order mark. -/
def isOrderMark (character : Char) : Bool := character = Char.ofNat 0xFEFF

/-- What stands around the root begins with no byte order mark. -/
theorem SpellsOutside.noOrderMark {source : Text} (outside : SpellsOutside source) :
    Stops isOrderMark source := by
  cases outside with
  | nil => exact .nil
  | white space =>
    refine .cons ?_ _
    rcases isSpace_cases space with rfl | rfl | rfl | rfl <;> decide
  | gap gap => cases gap <;> exact .cons (by decide) _

/-- A declaration begins with no byte order mark. -/
theorem SpellsDeclaration.noOrderMark {source : Text} (declared : SpellsDeclaration source) :
    Stops isOrderMark source := by
  cases declared
  exact .cons (by decide) _

/-- A document type begins with no byte order mark. -/
theorem SpellsDocumentType.noOrderMark {source : Text} (typed : SpellsDocumentType source) :
    Stops isOrderMark source := by
  cases typed <;> exact .cons (by decide) _

/-- An element begins with a less-than sign and what starts a name. -/
theorem SpellsPart.exists_begin {element : Element} {source : Text}
    (spelled : SpellsPart (.element element) source) (plain : IsPlainName element.name) :
    ∃ head following, startsName head = true ∧ source = '<' :: head :: following := by
  obtain ⟨head, others, first, starts, -⟩ := exists_of_isName plain.1
  have named : ∃ following, source = '<' :: (element.name ++ following) := by
    cases spelled with
    | @closed name tag space => exact ⟨tag ++ (space ++ "/>".toList), by simp⟩
    | @opened name tag space inner space' =>
      exact ⟨tag ++ (space ++ '>' :: (inner ++ ("</".toList ++ (name ++ (space' ++ ['>']))))), by
        simp⟩
  obtain ⟨following, rfl⟩ := named
  exact ⟨head, others ++ following, starts, by rw [first, List.cons_append]⟩

namespace Prolog

/-- A byte order mark is left out. -/
theorem optionally_mark {mark text : Text} (start : mark = [] ∨ mark = [Char.ofNat 0xFEFF])
    (other : Stops isOrderMark text) : optionally [Char.ofNat 0xFEFF] (mark ++ text) = text := by
  rcases start with rfl | rfl
  · cases text with
    | nil => rfl
    | cons head rest =>
      have different : Char.ofNat 0xFEFF ≠ head := fun same =>
        absurd (other head rfl) (by simp [isOrderMark, ← same])
      simp [optionally, exactly, Text.dropStart?, different]
  · rw [optionally, exactly_append]
    rfl

/-- A declaration is left out, and what stands around the root is none. -/
theorem skipDeclaration_append {declaration rest : Text}
    (declared : declaration = [] ∨ SpellsDeclaration declaration)
    (late : exactly "<?xml ".toList rest = none) :
    (skipDeclaration (declaration ++ rest)).bind skipGaps = skipGaps rest := by
  rcases declared with rfl | declared
  · rw [List.nil_append, skipDeclaration, late]
    rfl
  · exact declared.skip rest

/-- What stands before the root behind the declaration is left out. -/
theorem read_documentType {kind between rest : Text}
    (typed : kind = [] ∨ SpellsDocumentType kind) (outside : SpellsOutside between)
    (ends : EndsGaps rest) (untyped : DocumentType.read rest = some ([], rest)) :
    (do
      let (entities, rest) ← DocumentType.read (← skipGaps (kind ++ (between ++ rest)))
      some (entities, ← skipGaps rest)) = some (([] : Entities), rest) := by
  have last : skipGaps (between ++ rest) = some rest := by
    rw [outside.skipGaps_append, skipGaps_of_endsGaps ends]
  rcases typed with rfl | typed
  · simp only [List.nil_append, last, untyped, skipGaps_of_endsGaps ends, Option.bind_eq_bind,
      Option.bind_some]
  · simp only [skipGaps_of_endsGaps (typed.endsGaps _), typed.read_append, last,
      Option.bind_eq_bind, Option.bind_some]

/-- Everything before the root is left out, and declares no entities. -/
theorem read_append {mark declaration before kind between rest : Text}
    (start : mark = [] ∨ mark = [Char.ofNat 0xFEFF])
    (declared : declaration = [] ∨ SpellsDeclaration declaration) (outside : SpellsOutside before)
    (typed : kind = [] ∨ SpellsDocumentType kind) (outside' : SpellsOutside between)
    {head : Char} (starts : startsName head = true) :
    read (mark ++ declaration ++ before ++ kind ++ between ++ '<' :: head :: rest) =
      some ([], '<' :: head :: rest) := by
  have whole : mark ++ declaration ++ before ++ kind ++ between ++ '<' :: head :: rest =
      mark ++ (declaration ++ (before ++ (kind ++ (between ++ '<' :: head :: rest)))) := by simp
  have ends : EndsGaps ('<' :: head :: rest) := .tag starts rest
  have exclamation : '!' ≠ head := Lexeme.ne_of_startsName starts _ (by decide)
  have untyped : DocumentType.read ('<' :: head :: rest) = some ([], '<' :: head :: rest) := by
    simp [DocumentType.read, exactly, Text.dropStart?, exclamation]
  have unmarked : Stops isOrderMark
      (declaration ++ (before ++ (kind ++ (between ++ '<' :: head :: rest)))) :=
    .append (declared.elim (by rintro rfl; exact .nil) (·.noOrderMark)) <|
      .append outside.noOrderMark <|
        .append (typed.elim (by rintro rfl; exact .nil) (·.noOrderMark)) <|
          .append outside'.noOrderMark (.cons (by decide) _)
  have undeclared : exactly "<?xml ".toList
      (before ++ (kind ++ (between ++ '<' :: head :: rest))) = none := by
    refine outside.undeclared ?_
    rcases typed with rfl | typed
    · exact outside'.undeclared ends.undeclared
    · exact (typed.endsGaps _).undeclared
  have front := skipDeclaration_append declared undeclared
  have back := read_documentType typed outside' ends untyped
  rw [outside.skipGaps_append] at front
  rw [whole, read, optionally_mark start unmarked]
  simp only [Option.bind_eq_bind, ← Option.bind_assoc, front] at back ⊢
  exact back

end Prolog

/-! ### A note -/

/-- A note with two attributes, whose content is two texts and an element. -/
def note : Element :=
  ⟨"a".toList, .ofList [("b".toList, "1".toList), ("c".toList, "<".toList)],
    .text "x".toList (.text "y&".toList (.element "e".toList .empty .nil .nil))⟩

/-- The note with its attributes in descending order and a comment between its texts, the second of
which is in two pieces. -/
def noteSource : Text :=
  "<a c=\x22&lt;\x22 b='1'>x<!----><![CDATA[y]]>&#x26;<e/></a>".toList

/-- The note can be written. -/
theorem writableElement_note : WritableElement note := by
  refine ⟨by decide, ?_, by decide, by decide, by decide, by decide, by decide, nofun, trivial,
    trivial⟩
  rw [WritableAttributes]
  decide

/-- The attributes of the note are spelled in descending order. -/
theorem spellsAttributes_note : SpellsAttributes
    [("c".toList, "<".toList), ("b".toList, "1".toList)] " c=\x22&lt;\x22 b='1'".toList := by
  have blank : IsGap [' '] := by decide
  have first : SpellsAttribute ("c".toList, "<".toList) "c=\x22&lt;\x22".toList :=
    @SpellsAttribute.mk _ _ [] [] _ '\x22' nofun nofun (.inl rfl)
      (@Spells.reference _ '<' [] "lt".toList [] (.named (by decide)) .nil)
  have second : SpellsAttribute ("b".toList, "1".toList) "b='1'".toList :=
    @SpellsAttribute.mk _ _ [] [] _ '\x27' nofun nofun (.inr rfl) (.plain (by decide) .nil)
  exact .cons blank first (.cons blank second .nil)

/-- The content of the note is spelled with a comment, a verbatim section and a reference. -/
theorem spellsContent_note :
    SpellsPart (.row false note.content) "x<!----><![CDATA[y]]>&#x26;<e/>".toList := by
  have child : SpellsPart (.element ⟨"e".toList, .empty, .nil⟩) "<e/>".toList :=
    @SpellsPart.closed "e".toList [] [] .empty [] .nil .nil nofun
  have code : IsNumeral 16 "26".toList '&'.toNat :=
    @IsNumeral.behind 16 ['2'] 2 '6' 6 (.single (by decide)) (by decide)
  have ampersand : Spells PlainInText ['&'] "&#x26;".toList := .reference (.hexadecimal code) .nil
  have late : SpellsText false "y&".toList "<![CDATA[y]]>&#x26;".toList :=
    @SpellsText.verbatim false ['y'] ['&'] _ (by decide) (by decide) <|
      @SpellsText.run ['&'] "&#x26;".toList [] [] (by decide) ampersand (by decide) .nil
  have early : SpellsText false "x".toList "x".toList :=
    @SpellsText.run ['x'] ['x'] [] [] (by decide) (.plain (by decide) .nil) (by decide) .nil
  have gap : SpellsGap "<!---->".toList := @SpellsGap.comment [] nofun (by decide) (by decide)
  exact .text early (.gap gap (.text late (.child child .nil)))

/-- The source spells the note. -/
theorem spellsDocument_note : SpellsDocument note noteSource := by
  have order : [("c".toList, "<".toList), ("b".toList, "1".toList)].Perm note.attributes.entries :=
    .swap _ _ _
  have root : SpellsPart (.element note) noteSource :=
    @SpellsPart.opened "a".toList _ [] _ [] _ _ _ order spellsAttributes_note nofun
      spellsContent_note nofun
  exact @SpellsDocument.mk note [] [] [] [] [] _ [] (.inl rfl) (.inl rfl) .nil (.inl rfl) .nil root
    .nil

/-! ### Whole documents -/

/-- Reading undoes writing: a root that can be written is that of some document, and every document
with this root is read as it, however it is written. -/
theorem read_of_spellsDocument {element : Element} (writable : WritableElement element) :
    (∃ text, SpellsDocument element text) ∧
      ∀ text, SpellsDocument element text → read text = some element := by
  refine ⟨exists_spellsDocument element, fun text spelled => ?_⟩
  cases spelled with
  | @mk mark declaration before kind between source after start declared outside typed outside' root
      outside'' =>
    obtain ⟨raws, plains, reads⟩ := root.isRead writable
    have tree := reads.lexed.resolves writable
    obtain ⟨head, following, starts, rfl⟩ := root.exists_begin writable.1
    have front : Prolog.read (mark ++ declaration ++ before ++ kind ++ between ++
        '<' :: head :: following ++ after) = some ([], '<' :: head :: following ++ after) := by
      rw [List.append_assoc _ ('<' :: head :: following)]
      exact Prolog.read_append start declared outside typed outside' starts
    have back : Prolog.skipGaps after = some [] := by
      rw [← List.append_nil after, outside''.skipGaps_append]
      exact Prolog.skipGaps_of_endsGaps .nil
    rw [read, front]
    simp only [Option.bind_eq_bind, Option.bind_some, reads.root, back, reads.expands.expand_eq,
      if_true, ← Option.bind_assoc, tree, first?]

/-- The note is read from its source. -/
theorem read_of_spellsDocument_of_note : WritableElement note ∧ SpellsDocument note noteSource ∧
    read noteSource = some note :=
  ⟨writableElement_note, spellsDocument_note,
    (read_of_spellsDocument writableElement_note).2 noteSource spellsDocument_note⟩

end ApiPages.Xml
