import ApiPages.Proofs.SpelledLexemes
import ApiPages.Xml.Prolog

/-!
# Leaving out what surrounds the root

Everything that may stand before the root is left out, and nothing of it comes back: white space,
comments and processing instructions, the declaration, and a document type that declares nothing. A
declaration whose first white space is no blank is left out as a processing instruction.
-/
namespace ApiPages.Xml

open Reader

/-! ### White space, comments and processing instructions -/

/-- A text that goes on with neither white space nor a comment nor a processing instruction. -/
structure EndsGaps (text : Text) : Prop where
  /-- No white space comes next. -/
  visible : Stops isSpace text
  /-- No mark of a gap comes next. -/
  other : announced Lexeme.gaps text = none

namespace EndsGaps

/-- Nothing comes at the end of a text. -/
theorem nil : EndsGaps [] := ⟨.nil, rfl⟩

/-- The tag of an element ends the gaps before it. -/
theorem tag {head : Char} (starts : startsName head = true) (rest : Text) :
    EndsGaps ('<' :: head :: rest) where
  visible := .cons (by decide) _
  other := by
    have exclamation : '!' ≠ head := Lexeme.ne_of_startsName starts _ (by decide)
    have question : '?' ≠ head := Lexeme.ne_of_startsName starts _ (by decide)
    simp [announced, Lexeme.gaps, exactly, Text.dropStart?, exclamation, question]

/-- The mark of a document type ends the gaps before it. -/
theorem documentType (rest : Text) : EndsGaps ("<!DOCTYPE".toList ++ rest) where
  visible := .cons (by decide) _
  other := by simp [announced, Lexeme.gaps, exactly, Text.dropStart?]

end EndsGaps

/-- Where the mark of a declaration comes next, a gap is refused. -/
theorem Lexeme.undeclared_of_announced {text : Text} (admitted : announced gaps text ≠ some none) :
    exactly "<?xml ".toList text = none := by
  cases found : exactly "<?xml ".toList text with
  | none => rfl
  | some rest =>
    obtain rfl := Text.dropStart?_eq_some_iff.1 found
    refine absurd ?_ admitted
    simp [announced, gaps, exactly, Text.dropStart?]

/-- Where gaps end, no declaration begins. -/
theorem EndsGaps.undeclared {text : Text} (ends : EndsGaps text) :
    exactly "<?xml ".toList text = none := by
  refine Lexeme.undeclared_of_announced ?_
  simp [ends.other]

/-- A row whose first step finds the same in two texts is the same in both. -/
theorem Reader.repeated_congr {α β : Type} {step : Reader (Found α β)} (shortens : Shortens step)
    {text text' : Text} (same : step text = step text') :
    repeated step shortens text = repeated step shortens text' := by
  have fails : ∀ text, step text = none → repeated step shortens text = none := by
    intro text failed
    rw [repeated]
    split <;> simp_all
  match found : step text' with
  | none => rw [fails text' found, fails text (same.trans found)]
  | some (.finish last, rest) =>
    rw [repeated_finish shortens found, repeated_finish shortens (same.trans found)]
  | some (.item item, rest) =>
    rw [repeated_item shortens found, repeated_item shortens (same.trans found)]

namespace Prolog

/-- White space in front of other gaps is left out. -/
theorem skipGaps_space {character : Char} (space : isSpace character = true) (text : Text) :
    skipGaps (character :: text) = skipGaps text := by
  have step : gapStep (character :: text) = gapStep text := by
    rw [gapStep, skipSpaces, List.dropWhile_cons_of_pos space]
    rfl
  rw [skipGaps, repeated_congr gapStep_shortens step]
  rfl

/-- What is announced as a gap is left out. -/
theorem skipGaps_announced {text rest : Text} {lexeme : RawLexeme} (visible : Stops isSpace text)
    (gap : announced Lexeme.gaps text = some (some (lexeme, rest))) :
    skipGaps text = skipGaps rest := by
  have stays : skipSpaces text = text := skipSpaces_eq visible
  have step : gapStep text = some (.item (), rest) := by
    simp only [gapStep, stays, gap, Option.map_some]
  rw [skipGaps, repeated_item gapStep_shortens step, Option.map_map]
  rfl

/-- Where gaps end, none is left out. -/
theorem skipGaps_of_endsGaps {text : Text} (ends : EndsGaps text) : skipGaps text = some text := by
  have stays : skipSpaces text = text := skipSpaces_eq ends.visible
  have step : gapStep text = some (.finish (), text) := by
    simp only [gapStep, stays, ends.other]
  rw [skipGaps, repeated_finish gapStep_shortens step]
  rfl

end Prolog

namespace SpellsOutside

variable {source rest : Text}

/-- What stands around the root is left out. -/
theorem skipGaps_append (outside : SpellsOutside source) (rest : Text) :
    Prolog.skipGaps (source ++ rest) = Prolog.skipGaps rest := by
  induction outside with
  | nil => rfl
  | white space outside ih => rw [List.cons_append, Prolog.skipGaps_space space, ih]
  | @gap source following gap outside ih =>
    have visible : Stops isSpace (source ++ (following ++ rest)) := by
      cases gap <;> exact .cons (by decide) _
    rw [List.append_assoc, Prolog.skipGaps_announced visible (gap.announced_eq _), ih]

/-- What stands around the root does not bring a declaration about. -/
theorem undeclared (outside : SpellsOutside source) (late : exactly "<?xml ".toList rest = none) :
    exactly "<?xml ".toList (source ++ rest) = none := by
  cases outside with
  | nil => exact late
  | @white character source space =>
    have other : '<' ≠ character := by
      rintro rfl
      exact absurd space (by decide)
    simp [exactly, Text.dropStart?, other]
  | @gap source following gap =>
    refine Lexeme.undeclared_of_announced ?_
    simp [List.append_assoc, gap.announced_eq]

end SpellsOutside

/-! ### The declaration -/

namespace IsLabel

variable {character : Char}

/-- Letters and digits lie between the digit zero and the last small letter. -/
theorem bounds_of_isAlphanum (alphanumeric : character.isAlphanum = true) :
    48 ≤ character.toNat ∧ character.toNat ≤ 122 := by
  have kinds : (character.isUpper || character.isLower || character.isDigit) = true := alphanumeric
  rw [Bool.or_eq_true, Bool.or_eq_true] at kinds
  rcases kinds with (capital | small) | digit
  · have bounds : 65 ≤ character.toNat ∧ character.toNat ≤ 90 := of_decide_eq_true capital
    omega
  · obtain ⟨low, high⟩ := Bool.and_eq_true_iff.1 small
    have bounds : 97 ≤ character.toNat ∧ character.toNat ≤ 122 :=
      ⟨of_decide_eq_true low, of_decide_eq_true high⟩
    omega
  · obtain ⟨low, high⟩ := Bool.and_eq_true_iff.1 digit
    have bounds : 48 ≤ character.toNat ∧ character.toNat ≤ 57 :=
      ⟨of_decide_eq_true low, of_decide_eq_true high⟩
    omega

/-- A character of a label may occur in a document. -/
theorem isCharacter (label : IsLabel character) : isCharacter character = true := by
  rcases label with alphanumeric | sign
  · have bounds := bounds_of_isAlphanum alphanumeric
    have visible : ¬ character.toNat < 0x20 := by omega
    simp only [Xml.isCharacter, if_neg visible, Bool.and_eq_true, bne_iff_ne]
    omega
  · have known : ∀ character ∈ ['.', '_', '-'], Xml.isCharacter character = true :=
      List.all_eq_true.1 (by decide)
    exact known _ sign

/-- Signs of markup are no labels. -/
theorem notMem (label : IsLabel character) : character ∉ ['<', '?', '\x22', '\x27'] := by
  intro listed
  rcases label with alphanumeric | sign
  · have symbols : ∀ sign ∈ ['<', '?', '\x22', '\x27'], sign.isAlphanum = false :=
      List.all_iff_forall_prop.1 (by decide)
    rw [symbols _ listed] at alphanumeric
    cases alphanumeric
  · have apart : ∀ sign ∈ ['.', '_', '-'], sign ∉ ['<', '?', '\x22', '\x27'] :=
      List.all_iff_forall_prop.1 (by decide)
    exact apart _ sign listed

end IsLabel

/-- An item of the declaration begins behind white space with its name, and is read up to its
end. -/
theorem SpellsItem.exists_read {name source : Text} (item : SpellsItem name source)
    (plain : IsPlainName name) :
    ∃ gap body, source = gap ++ (name ++ body) ∧ IsGap gap ∧
      ∀ rest, Prolog.declarationAttribute (name ++ (body ++ rest)) = some rest := by
  cases item with
  | @mk gap before after value quote apart white white' mark label =>
    refine ⟨gap, before ++ '=' :: (after ++ quote :: value ++ [quote]), by simp, apart,
      fun rest => ?_⟩
    have whole : name ++ (before ++ '=' :: (after ++ quote :: value ++ [quote]) ++ rest) =
        name ++ (before ++ '=' :: (after ++ quote :: (value ++ quote :: rest))) := by simp
    obtain ⟨afterName, afterSign, word, sign, opening⟩ :=
      exists_assigned plain white white' mark (value ++ quote :: rest)
    have absent : quote ∉ value := by
      intro listed
      refine (label quote listed).notMem ?_
      rcases mark with rfl | rfl <;> decide
    have all : value.all isCharacter = true :=
      List.all_eq_true.2 fun character listed => (label character listed).isCharacter
    have noBracket : value.contains '<' = false := by
      have bracket : '<' ∉ value := fun listed => (label _ listed).notMem (by decide)
      simpa using bracket
    have inside := quoted_append mark absent rest
    rw [List.cons_append] at inside
    rw [whole]
    simp only [Prolog.declarationAttribute, word, sign, opening, inside, all, noBracket,
      Bool.not_false, Bool.and_self, if_true, Option.bind_eq_bind, Option.bind_some]

/-- Whether a character may stand in a declaration before its end. -/
def inDeclaration (character : Char) : Bool := isCharacter character && character ≠ '?'

/-- White space may stand in a declaration. -/
theorem IsWhite.inDeclaration {space : Text} (white : IsWhite space) :
    ∀ character ∈ space, inDeclaration character = true := by
  intro character listed
  rcases isSpace_cases (white character listed) with rfl | rfl | rfl | rfl <;> decide

/-- A character of a label may stand in a declaration. -/
theorem IsLabel.inDeclaration {character : Char} (label : IsLabel character) :
    inDeclaration character = true := by
  have other : character ≠ '?' := by
    rintro rfl
    exact label.notMem (by decide)
  simp [Xml.inDeclaration, label.isCharacter, other]

/-- No character of an item ends the declaration. -/
theorem SpellsItem.inDeclaration {name source : Text} (item : SpellsItem name source)
    (plain : ∀ character ∈ name, inDeclaration character = true) :
    ∀ character ∈ source, inDeclaration character = true := by
  cases item with
  | @mk gap before after value quote apart white white' mark label =>
    have marks : Xml.inDeclaration quote = true := by rcases mark with rfl | rfl <;> decide
    have sign : Xml.inDeclaration '=' = true := by decide
    simp only [List.forall_mem_append, List.forall_mem_cons]
    exact ⟨⟨⟨⟨⟨apart.1.inDeclaration, plain⟩, white.inDeclaration⟩, sign, white'.inDeclaration⟩,
      marks, fun character listed => (label character listed).inDeclaration⟩, marks, nofun⟩

namespace Prolog

/-- The white space in front of an item is left out. -/
theorem declarationSpaces_append {gap rest : Text} (apart : IsGap gap)
    (stops : Stops isSpace rest) : declarationSpaces (gap ++ rest) = some rest := by
  have spaces := spaces_append apart stops
  obtain ⟨head, others, rfl⟩ := List.exists_cons_of_ne_nil apart.2
  have other : '?' ≠ head := by
    rintro rfl
    exact absurd (apart.1 _ List.mem_cons_self) (by decide)
  rw [declarationSpaces, spaces]
  simp [exactly, Text.dropStart?, other]

/-- The end of a declaration. -/
theorem declarationSpaces_ending {space : Text} (white : IsWhite space) (rest : Text) :
    declarationSpaces (space ++ ("?>".toList ++ rest)) = some ("?>".toList ++ rest) := by
  cases space with
  | nil => simp [declarationSpaces, exactly, Text.dropStart?]
  | cons head others =>
    exact declarationSpaces_append ⟨white, List.cons_ne_nil _ _⟩ (.cons (by decide) _)

/-- White space in front of the end of a declaration is left out. -/
theorem skipSpaces_ending {space : Text} (white : IsWhite space) (rest : Text) :
    exactly "?>".toList (skipSpaces (space ++ ("?>".toList ++ rest))) = some rest := by
  have ends : Stops isSpace ("?>".toList ++ rest) := .cons (by decide) _
  rw [skipSpaces_append white ends, exactly_append]

variable {version encoding standalone space : Text}

/-- The last item of a declaration is passed over up to its end if it is there, and is not mistaken
for the item before it. -/
theorem exists_standalone (third : standalone = [] ∨ SpellsItem "standalone".toList standalone)
    (white : IsWhite space) (rest : Text) :
    ∃ left, declarationSpaces (standalone ++ (space ++ ("?>".toList ++ rest))) = some left ∧
      exactly "encoding".toList left = none ∧
      (declarationPart "standalone".toList left).bind
        (fun rest => exactly "?>".toList (skipSpaces rest)) = some rest := by
  rcases third with rfl | item
  · refine ⟨"?>".toList ++ rest, declarationSpaces_ending white rest, rfl, ?_⟩
    exact @skipSpaces_ending [] nofun rest
  · obtain ⟨gap, body, rfl, apart, read⟩ := item.exists_read ⟨by decide, by decide⟩
    refine ⟨"standalone".toList ++ (body ++ (space ++ ("?>".toList ++ rest))), ?_, rfl, ?_⟩
    · rw [List.append_assoc, List.append_assoc]
      exact declarationSpaces_append apart (.cons (by decide) _)
    · rw [declarationPart, exactly_append, read]
      exact skipSpaces_ending white rest

/-- The rest of a declaration is read up to its end. -/
theorem restOfDeclaration_append (first : SpellsItem "version".toList version)
    (second : encoding = [] ∨ SpellsItem "encoding".toList encoding)
    (third : standalone = [] ∨ SpellsItem "standalone".toList standalone) (white : IsWhite space)
    (rest : Text) :
    restOfDeclaration (version ++ (encoding ++ (standalone ++ (space ++ ("?>".toList ++ rest))))) =
      some rest := by
  obtain ⟨left, spaces, other, ends⟩ := exists_standalone third white rest
  obtain ⟨gap, body, rfl, apart, read⟩ := first.exists_read ⟨by decide, by decide⟩
  have begins : ∀ following, declarationSpaces (gap ++ ("version".toList ++ following)) =
      some ("version".toList ++ following) :=
    fun following => declarationSpaces_append apart (.cons (by decide) _)
  rcases second with rfl | item
  · simp only [restOfDeclaration, List.append_assoc, begins, read, exactly_append, spaces, other,
      List.nil_append, Option.bind_eq_bind, Option.bind_some, Option.isSome_none,
      Bool.false_eq_true, if_false, ends]
  · obtain ⟨gap', body', rfl, apart', read'⟩ := item.exists_read ⟨by decide, by decide⟩
    have begins' : ∀ following, declarationSpaces (gap' ++ ("encoding".toList ++ following)) =
        some ("encoding".toList ++ following) :=
      fun following => declarationSpaces_append apart' (.cons (by decide) _)
    simp only [restOfDeclaration, List.append_assoc, begins, begins', read, read', exactly_append,
      spaces, Option.bind_eq_bind, Option.bind_some, Option.isSome_some, if_true, ends]

end Prolog

/-- A declaration between its marks: it begins with white space, is not cut short by its own
characters, and is read up to its end. -/
theorem SpellsDeclaration.exists_inner {source : Text} (declared : SpellsDeclaration source) :
    ∃ inner, source = "<?xml".toList ++ (inner ++ "?>".toList) ∧
      (∀ head ∈ inner.head?, isSpace head = true) ∧
      (∀ character ∈ inner, inDeclaration character = true) ∧
      ∀ rest, Prolog.restOfDeclaration (inner ++ ("?>".toList ++ rest)) = some rest := by
  cases declared with
  | @mk version encoding standalone space first second third white =>
    have named : ∀ {name source}, (∀ character ∈ name, inDeclaration character = true) →
        source = [] ∨ SpellsItem name source →
          ∀ character ∈ source, inDeclaration character = true := by
      rintro name source plain (rfl | item)
      · simp
      · exact item.inDeclaration plain
    refine ⟨version ++ (encoding ++ (standalone ++ space)), by simp, ?_, ?_, fun rest => ?_⟩
    · obtain ⟨gap, body, rfl, apart, -⟩ := first.exists_read ⟨by decide, by decide⟩
      obtain ⟨head, others, rfl⟩ := List.exists_cons_of_ne_nil apart.2
      rintro _ ⟨⟩
      exact apart.1 _ List.mem_cons_self
    · simp only [List.forall_mem_append]
      exact ⟨first.inDeclaration (List.all_eq_true.1 (by decide)),
        named (List.all_eq_true.1 (by decide)) second, named (List.all_eq_true.1 (by decide)) third,
        white.inDeclaration⟩
    · have read := Prolog.restOfDeclaration_append first second third white rest
      simpa only [List.append_assoc] using read

/-- The declaration is left out, as such or as a processing instruction. -/
theorem SpellsDeclaration.skip {source : Text} (declared : SpellsDeclaration source) (rest : Text) :
    (Prolog.skipDeclaration (source ++ rest)).bind Prolog.skipGaps = Prolog.skipGaps rest := by
  obtain ⟨inner, rfl, apart, known, read⟩ := declared.exists_inner
  have whole : "<?xml".toList ++ (inner ++ "?>".toList) ++ rest =
      "<?xml".toList ++ (inner ++ ("?>".toList ++ rest)) := by simp
  rw [whole, Prolog.skipDeclaration]
  split
  · rw [exactly_append, Option.bind_some, read]
    rfl
  · rename_i noBlank
    have writable : IsWritable inner := fun character listed =>
      (Bool.and_eq_true_iff.1 (known character listed)).1
    have absent : ¬ "?>".toList <:+: inner := by
      intro holds
      exact absurd (known '?' (holds.subset (by decide))) (by decide)
    have undeclared : Text.dropStart? "xml ".toList
        ("xml".toList ++ (inner ++ ("?>".toList ++ rest))) = none := by
      simpa [exactly, Text.dropStart?] using noBlank
    have named : isName "xml".toList = true := by decide
    have announced := (Lexeme.announced_instruction undeclared).trans
      (congrArg some (Lexeme.instruction_append named apart writable absent rest))
    exact Prolog.skipGaps_announced (.cons (by decide) _) announced

/-! ### The document type -/

/-- A quoted text is read whatever follows it. -/
theorem SpellsLiteral.exists_read {source : Text} (literal : SpellsLiteral source) :
    ∃ value, ∀ rest, DocumentType.spacedQuoted (source ++ rest) = some (value, rest) := by
  cases literal with
  | @mk gap value quote apart mark writable absent =>
    refine ⟨value, fun rest => ?_⟩
    have whole : gap ++ quote :: value ++ [quote] ++ rest =
        gap ++ (quote :: value ++ quote :: rest) := by simp
    have opening : Stops isSpace (quote :: value ++ quote :: rest) :=
      .cons (by rcases mark with rfl | rfl <;> decide) _
    rw [whole, DocumentType.spacedQuoted, spaces_append apart opening, Option.bind_some,
      quoted_append mark absent]

namespace SpellsExternal

variable {source : Text}

/-- Where the rest of a document type is found begins with no white space. -/
theorem visible (outside : SpellsExternal source) (rest : Text) :
    Stops isSpace (source ++ rest) := by
  cases outside <;> exact .cons (by decide) _

/-- Where the rest of a document type is found is passed over. -/
theorem skipExternalName_append (outside : SpellsExternal source) (rest : Text) :
    DocumentType.skipExternalName (source ++ rest) = some rest := by
  cases outside with
  | @place own literal =>
    obtain ⟨value, read⟩ := literal.exists_read
    have announced : announced DocumentType.externalNames ("SYSTEM".toList ++ own ++ rest) =
        some (some (value, rest)) := by
      rw [← read rest]
      simp [announced, DocumentType.externalNames, exactly, Text.dropStart?]
    rw [DocumentType.skipExternalName, announced]
    rfl
  | @called name own first second =>
    obtain ⟨called, readFirst⟩ := first.exists_read
    obtain ⟨value, read⟩ := second.exists_read
    have announced : announced DocumentType.externalNames ("PUBLIC".toList ++ name ++ own ++ rest) =
        some (some (value, rest)) := by
      rw [← read rest]
      simp [announced, DocumentType.externalNames, exactly, Text.dropStart?, readFirst]
    rw [DocumentType.skipExternalName, announced]
    rfl

end SpellsExternal

/-- Without a place outside the document there is none to pass over. -/
theorem DocumentType.skipExternalName_ending (rest : Text) :
    skipExternalName ('>' :: rest) = some ('>' :: rest) := by
  simp [skipExternalName, announced, externalNames, exactly, Text.dropStart?]

namespace SpellsDocumentType

variable {source : Text}

/-- A document type that declares nothing is passed over and gives no entities. -/
theorem read_append (typed : SpellsDocumentType source) (rest : Text) :
    DocumentType.read (source ++ rest) = some ([], rest) := by
  have visible : ∀ {name following : Text}, isName name = true →
      Stops isSpace (name ++ following) := by
    intro name following named
    obtain ⟨head, others, rfl, starts, -⟩ := exists_of_isName named
    exact .cons (not_isSpace_of_startsName starts) _
  have bracket : Stops isSpace ('>' :: rest) := .cons (by decide) _
  cases typed with
  | @bare gap name space apart named white =>
    have whole : "<!DOCTYPE".toList ++ gap ++ name ++ space ++ ['>'] ++ rest =
        "<!DOCTYPE".toList ++ (gap ++ (name ++ (space ++ '>' :: rest))) := by simp
    have stops : Stops continuesName (space ++ '>' :: rest) := white.stops (.cons (by decide) _)
    have next : skipSpaces ('>' :: rest) = '>' :: rest := skipSpaces_eq bracket
    rw [whole, DocumentType.read, exactly_append]
    simp only [DocumentType.restOfDocumentType, spaces_append apart (visible named),
      name_append named stops, skipSpaces_append white bracket,
      DocumentType.skipExternalName_ending, next, Option.bind_eq_bind, Option.bind_some]
  | @outside gap name gap' source space apart named apart' outside white =>
    have whole : "<!DOCTYPE".toList ++ gap ++ name ++ gap' ++ source ++ space ++ ['>'] ++ rest =
        "<!DOCTYPE".toList ++ (gap ++ (name ++ (gap' ++ (source ++ (space ++ '>' :: rest))))) := by
      simp
    have stops : Stops continuesName (gap' ++ (source ++ (space ++ '>' :: rest))) := by
      obtain ⟨head, others, rfl⟩ := List.exists_cons_of_ne_nil apart'.2
      exact .cons (continuesName_of_isSpace (apart'.1 _ List.mem_cons_self)) _
    rw [whole, DocumentType.read, exactly_append]
    simp only [DocumentType.restOfDocumentType, spaces_append apart (visible named),
      name_append named stops, skipSpaces_append apart'.1 (outside.visible _),
      outside.skipExternalName_append, skipSpaces_append white bracket, Option.bind_eq_bind,
      Option.bind_some]

/-- A document type ends the gaps before it. -/
theorem endsGaps (typed : SpellsDocumentType source) (rest : Text) : EndsGaps (source ++ rest) := by
  cases typed <;> simpa only [List.append_assoc] using EndsGaps.documentType _

end SpellsDocumentType

end ApiPages.Xml
