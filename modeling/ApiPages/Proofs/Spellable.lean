import ApiPages.Proofs.SpelledGlyphs

/-!
# Every tree can be spelled

Every character can be referred to by its code, and a comment can part two texts. So every tree has
a spelling, and what is proved of all spellings of a tree is proved of at least one.
-/
namespace ApiPages.Xml

/-! ### Characters -/

/-- Every value below ten has a digit. -/
theorem exists_isDigit {value : Nat} (small : value < 10) : ∃ sign, IsDigit 10 sign value := by
  have listed : value < smallDigits.length := Nat.lt_trans small (by decide)
  exact ⟨smallDigits[value], small, .inl (List.getElem?_eq_getElem listed)⟩

/-- Every number has digits. -/
theorem exists_isNumeral (number : Nat) : ∃ digits, IsNumeral 10 digits number := by
  induction number using Nat.strongRecOn with
  | _ number ih =>
    by_cases small : number < 10
    · obtain ⟨sign, digit⟩ := exists_isDigit small
      exact ⟨[sign], .single digit⟩
    · obtain ⟨digits, front⟩ := ih (number / 10) (by omega)
      obtain ⟨sign, digit⟩ := exists_isDigit (Nat.mod_lt number (by decide : 0 < 10))
      exact ⟨digits ++ [sign], Nat.div_add_mod' number 10 ▸ front.behind digit⟩

/-- A text can be written by references alone. -/
theorem exists_spells (text : Text) : ∃ source, Spells (fun _ => False) text source := by
  induction text with
  | nil => exact ⟨[], .nil⟩
  | cons character rest ih =>
    obtain ⟨source, spelled⟩ := ih
    obtain ⟨digits, code⟩ := exists_isNumeral character.toNat
    exact ⟨_, .reference (.decimal code) spelled⟩

/-- More characters may stand for themselves. -/
theorem Spells.mono {plain plain' : Char → Prop}
    (more : ∀ character, plain character → plain' character) {text source : Text}
    (spelled : Spells plain text source) : Spells plain' text source := by
  induction spelled with
  | nil => exact .nil
  | plain itself rest ih => exact .plain (more _ itself) ih
  | reference refers rest ih => exact .reference refers ih

/-! ### Trees -/

/-- Every attribute can be written. -/
theorem exists_spellsAttribute (entry : Text × Text) : ∃ source, SpellsAttribute entry source := by
  obtain ⟨source, spelled⟩ := exists_spells entry.2
  have value : Spells (PlainInValue '\x22') entry.2 source := spelled.mono fun _ => False.elim
  exact ⟨_, @SpellsAttribute.mk entry.1 entry.2 [] [] source '\x22' nofun nofun (.inl rfl) value⟩

/-- Every list of attributes can be written in its own order. -/
theorem exists_spellsAttributes (entries : List (Text × Text)) :
    ∃ tag, SpellsAttributes entries tag := by
  induction entries with
  | nil => exact ⟨[], .nil⟩
  | cons entry entries ih =>
    obtain ⟨source, first⟩ := exists_spellsAttribute entry
    obtain ⟨tag, rest⟩ := ih
    have blank : IsGap [' '] := by decide
    exact ⟨_, .cons blank first rest⟩

/-- A text can be written as one run, in which the end of a verbatim section does not occur. -/
theorem exists_spellsText (text : Text) : ∃ source, SpellsText false text source := by
  rcases eq_or_ne text [] with rfl | filled
  · exact ⟨[], .nil⟩
  · obtain ⟨source, spelled⟩ := exists_spells text
    have bracket : ']' ∉ source := spelled.notMem id (by decide)
    have absent : ¬ "]]>".toList <:+: source := fun holds => bracket (holds.subset (by decide))
    have run := SpellsText.run filled (spelled.mono fun _ => False.elim) absent .nil
    rw [List.append_nil] at run
    exact ⟨_, run⟩

/-- A row can be written behind a text and behind anything else. -/
theorem exists_spellsRow (content : Content) (afterText : Bool) :
    ∃ source, SpellsPart (.row afterText content) source := by
  induction content generalizing afterText with
  | nil => exact ⟨[], .nil⟩
  | text own rest ih =>
    obtain ⟨source, spelled⟩ := exists_spellsText own
    obtain ⟨following, others⟩ := ih true
    have gap : SpellsGap "<!---->".toList := @SpellsGap.comment [] nofun (by decide) (by decide)
    exact ⟨_, .gap gap (.text spelled others)⟩
  | element name attributes content rest ihContent ih =>
    obtain ⟨tag, written⟩ := exists_spellsAttributes attributes.entries
    obtain ⟨inner, row⟩ := ihContent false
    obtain ⟨following, others⟩ := ih false
    have own : SpellsPart (.element ⟨name, attributes, content⟩) _ :=
      @SpellsPart.opened name tag [] inner [] _ _ _ (.refl _) written nofun row nofun
    exact ⟨_, .child own others⟩

/-- Every element is the root of a document. -/
theorem exists_spellsDocument (element : Element) : ∃ text, SpellsDocument element text := by
  obtain ⟨tag, written⟩ := exists_spellsAttributes element.attributes.entries
  obtain ⟨inner, row⟩ := exists_spellsRow element.content false
  have root : SpellsPart (.element element) _ :=
    @SpellsPart.opened element.name tag [] inner [] _ _ _ (.refl _) written nofun row nofun
  exact ⟨_, .mk (.inl rfl) (.inl rfl) .nil (.inl rfl) .nil root .nil⟩

end ApiPages.Xml
