import Mathlib.Data.Bool.AllAny
import Mathlib.Data.List.Forall2
import ApiPages.Proofs.Spelling
import ApiPages.Xml.Expansion

/-!
# Reading characters back

However the characters of a text are written, each by itself or by a reference to it, reading gives
a glyph for each of them, and resolving these glyphs gives the characters again. That needs no
declaration of the document, and it counts no reference.
-/
namespace ApiPages.Xml

/-! ### References -/

namespace Glyph

/-- The digits of the two bases have their values, with small and with capital letters. -/
theorem digitValue?_of_isDigit {base : Nat} (known : base = 10 ∨ base = 16) {sign : Char}
    {value : Nat} (digit : IsDigit base sign value) : digitValue? base sign = some value := by
  have small : ∀ base ∈ [10, 16], ∀ value < base,
      (smallDigits[value]?.bind (digitValue? base)) = some value := by decide
  have capital : ∀ base ∈ [10, 16], ∀ value < base,
      (capitalDigits[value]?.bind (digitValue? base)) = some value := by decide
  obtain ⟨below, listed⟩ := digit
  have among : base ∈ [10, 16] := by simpa using known
  rcases listed with listed | listed
  · simpa [listed] using small base among value below
  · simpa [listed] using capital base among value below

/-- A numeral is read as its number. -/
theorem number?_of_isNumeral {base : Nat} (known : base = 10 ∨ base = 16) {digits : Text}
    {number : Nat} (numeral : IsNumeral base digits number) :
    number? base digits = some number := by
  have read : digits ≠ [] ∧ digits.foldlM
      (fun number digit => (digitValue? base digit).map (number * base + ·)) 0 = some number := by
    induction numeral with
    | single digit => simp [digitValue?_of_isDigit known digit]
    | behind front digit ih =>
      rw [List.foldlM_append, ih.2]
      simp [digitValue?_of_isDigit known digit]
  rw [number?, if_neg read.1, read.2]

/-- The code of a character that may occur gives it. -/
theorem ofCode?_toNat {character : Char} (writable : isCharacter character = true) :
    ofCode? character.toNat = some (.referred character) := by
  have small : character.toNat < 0x100000000 := character.val.toNat_lt
  have valid : character.toNat.isValidChar := character.valid
  rw [ofCode?, if_pos valid, Char.ofNat_toNat]
  simp [small, writable]

/-- The decimal digits of a number do not begin with an x. -/
theorem head_ne_of_isNumeral {digits rest : Text} {sign : Char} {number : Nat}
    (numeral : IsNumeral 10 digits number) (first : digits = sign :: rest) : sign ≠ 'x' := by
  have value := number?_of_isNumeral (.inl rfl) numeral
  rintro rfl
  rw [first, number?, if_neg (List.cons_ne_nil _ _), List.foldlM_cons] at value
  cases value

/-- A reference to a character is read as one. -/
theorem ofReference?_of_refersTo {character : Char} {name : Text}
    (refers : RefersTo character name) (writable : isCharacter character = true) :
    ofReference? name = some (.referred character) := by
  cases refers with
  | @decimal digits code =>
    have value := number?_of_isNumeral (.inl rfl) code
    rw [ofReference?, value, Option.bind_some, ofCode?_toNat writable]
    rintro rest rfl
    exact head_ne_of_isNumeral code rfl rfl
  | hexadecimal code =>
    rw [ofReference?, number?_of_isNumeral (.inr rfl) code, Option.bind_some,
      ofCode?_toNat writable]
  | named listed =>
    have known : ∀ entry ∈ characterNames, ofReference? entry.1 = some (.referred entry.2) := by
      decide
    exact known _ listed

end Glyph

/-- The signs of references between the ampersand and the semicolon. -/
def referenceSigns : Text := "#xlgtampquos0123456789abcdefABCDEF".toList

/-- A numeral is written with signs of references. -/
theorem mem_referenceSigns_of_isNumeral {base number : Nat} {digits : Text}
    (numeral : IsNumeral base digits number) :
    ∀ sign ∈ digits, sign ∈ referenceSigns := by
  have single : ∀ {sign value}, IsDigit base sign value → sign ∈ referenceSigns := by
    rintro sign value ⟨-, small | capital⟩
    · have all : ∀ sign ∈ smallDigits, sign ∈ referenceSigns :=
        List.all_iff_forall_prop.1 (by decide)
      exact all _ (List.mem_of_getElem? small)
    · have all : ∀ sign ∈ capitalDigits, sign ∈ referenceSigns :=
        List.all_iff_forall_prop.1 (by decide)
      exact all _ (List.mem_of_getElem? capital)
  induction numeral with
  | single digit => exact List.forall_mem_singleton.2 (single digit)
  | behind front digit ih =>
    exact List.forall_mem_append.2 ⟨ih, List.forall_mem_singleton.2 (single digit)⟩

/-- What names a character is written with signs of references. -/
theorem RefersTo.mem_referenceSigns {character : Char} {name : Text}
    (refers : RefersTo character name) : ∀ sign ∈ name, sign ∈ referenceSigns := by
  cases refers with
  | decimal code =>
    exact List.forall_mem_cons.2 ⟨by decide, mem_referenceSigns_of_isNumeral code⟩
  | hexadecimal code =>
    exact List.forall_mem_cons.2 ⟨by decide,
      List.forall_mem_cons.2 ⟨by decide, mem_referenceSigns_of_isNumeral code⟩⟩
  | named listed =>
    have known : ∀ entry ∈ characterNames, entry.1.all (fun sign => sign ∈ referenceSigns) = true :=
      by decide
    exact List.all_iff_forall_prop.1 (known _ listed)

/-! ### Rows of characters -/

variable {plain : Char → Prop} {text source : Text}

namespace Spells

/-- What holds of the characters that stand for themselves and of the signs of references holds of
all that is written. -/
theorem forall_mem (spells : Spells plain text source) (holds : Char → Prop)
    (own : ∀ character ∈ text, plain character → holds character)
    (signs : ∀ sign ∈ '&' :: ';' :: referenceSigns, holds sign) :
    ∀ sign ∈ source, holds sign := by
  induction spells with
  | nil => exact fun _ listed => absurd listed List.not_mem_nil
  | plain itself rest ih =>
    obtain ⟨first, others⟩ := List.forall_mem_cons.1 own
    exact List.forall_mem_cons.2 ⟨first itself, ih others⟩
  | reference refers rest ih =>
    obtain ⟨ampersand, others⟩ := List.forall_mem_cons.1 signs
    obtain ⟨semicolon, inside⟩ := List.forall_mem_cons.1 others
    refine List.forall_mem_append.2 ⟨List.forall_mem_cons.2 ⟨ampersand, fun sign listed => ?_⟩,
      List.forall_mem_cons.2 ⟨semicolon, ih (List.forall_mem_cons.1 own).2⟩⟩
    exact inside sign (refers.mem_referenceSigns sign listed)

/-- Only characters that may occur are written. -/
theorem isWritable (spells : Spells plain text source) (writable : IsWritable text) :
    IsWritable source :=
  spells.forall_mem _ (fun character listed _ => writable character listed)
    (by decide : IsWritable ('&' :: ';' :: referenceSigns))

/-- A character that does not stand for itself, and is no sign of a reference, is not written. -/
theorem notMem (spells : Spells plain text source) {mark : Char} (special : ¬ plain mark)
    (other : mark ∉ '&' :: ';' :: referenceSigns) : mark ∉ source := by
  have all := spells.forall_mem (· ≠ mark)
    (fun character _ itself same => special (same ▸ itself))
    fun sign listed same => other (same ▸ listed)
  exact fun listed => all mark listed rfl

/-- Something is written for a text that is not empty. -/
theorem ne_nil (spells : Spells plain text source) (filled : text ≠ []) : source ≠ [] := by
  cases spells with
  | nil => exact absurd rfl filled
  | plain | reference => simp

end Spells

namespace Glyph

/-- A glyph of a character: by itself, where that is allowed, or by a reference. -/
def Shows (plain : Char → Prop) (glyph : Glyph) (character : Char) : Prop :=
  glyph = .plain character ∧ plain character ∨ glyph = .referred character

/-- A reference is read up to its semicolon. -/
theorem readFrom_reference {name : Text} (absent : ';' ∉ name) (reversed rest : Text) :
    readFrom (some reversed) (name ++ ';' :: rest) =
      (ofReference? (reversed.reverse ++ name)).bind fun glyph =>
        (readFrom none rest).map (glyph :: ·) := by
  induction name generalizing reversed with
  | nil =>
    rw [List.nil_append, readFrom, if_pos rfl, List.append_nil]
    rfl
  | cons head name ih =>
    obtain ⟨first, others⟩ := not_or.1 (mt List.mem_cons.2 absent)
    rw [List.cons_append, readFrom, if_neg (Ne.symm first), ih others]
    simp

/-- What spells a text is read as glyphs that show it. -/
theorem exists_read (spells : Spells plain text source) (writable : IsWritable text)
    (special : ¬ plain '&') :
    ∃ glyphs, read source = some glyphs ∧ List.Forall₂ (Shows plain) glyphs text := by
  induction spells with
  | nil => exact ⟨[], rfl, .nil⟩
  | @plain character text source itself rest ih =>
    obtain ⟨own, others⟩ := List.forall_mem_cons.1 writable
    obtain ⟨glyphs, found, shown⟩ := ih others
    have other : character ≠ '&' := fun same => special (same ▸ itself)
    refine ⟨.plain character :: glyphs, ?_, .cons (.inl ⟨rfl, itself⟩) shown⟩
    rw [read] at found ⊢
    rw [readFrom, if_neg other, found]
    rfl
  | @reference character text name source refers rest ih =>
    obtain ⟨own, others⟩ := List.forall_mem_cons.1 writable
    obtain ⟨glyphs, found, shown⟩ := ih others
    have absent : ';' ∉ name := fun listed =>
      absurd (refers.mem_referenceSigns _ listed) (by decide)
    refine ⟨.referred character :: glyphs, ?_, .cons (.inr rfl) shown⟩
    rw [read] at found ⊢
    rw [List.cons_append, readFrom, if_pos rfl, readFrom_reference absent, List.reverse_nil,
      List.nil_append, ofReference?_of_refersTo refers own, Option.bind_some, found]
    rfl

variable {glyphs : List Glyph}

/-- Glyphs without a carriage return that stands for itself have no line ends to settle. -/
theorem settleLineEnds_eq (shown : List.Forall₂ (Shows plain) glyphs text)
    (special : ¬ plain '\r') (afterReference : Bool) :
    settleLineEnds afterReference glyphs = text.map .character := by
  induction shown generalizing afterReference with
  | nil => rfl
  | @cons glyph character glyphs text first rest ih =>
    rcases first with ⟨rfl, itself⟩ | rfl
    · have other : character ≠ '\r' := fun same => special (same ▸ itself)
      rw [settleLineEnds.eq_def]
      simp only [if_neg other, ih, List.map_cons]
    · rw [settleLineEnds, ih, List.map_cons]

/-- Glyphs without a carriage return that stands for itself have no line ends to join. -/
theorem joinLineEnds_eq (shown : List.Forall₂ (Shows plain) glyphs text)
    (special : ¬ plain '\r') : joinLineEnds glyphs = glyphs := by
  induction shown with
  | nil => rfl
  | @cons glyph character glyphs text first rest ih =>
    rcases first with ⟨rfl, itself⟩ | rfl
    · have other : character ≠ '\r' := fun same => special (same ▸ itself)
      rw [joinLineEnds, if_neg (fun both => other both.1), ih]
    · rw [joinLineEnds, ih]
      nofun

end Glyph

/-- A verbatim section without carriage returns has no line ends to settle. -/
theorem settleVerbatim_eq {content : Text} (noReturn : '\r' ∉ content) :
    settleVerbatim content = content := by
  have shown : List.Forall₂ (Glyph.Shows fun character => character ≠ '\r')
      (content.map .plain) content := by
    rw [List.forall₂_map_left_iff]
    refine List.forall₂_same.2 fun character listed => .inl ⟨rfl, ?_⟩
    rintro rfl
    exact noReturn listed
  rw [settleVerbatim, Glyph.settleLineEnds_eq shown (fun other => other rfl), List.filterMap_map]
  exact List.filterMap_some

/-! ### Resolution -/

namespace Counted

variable {α β γ : Type}

/-- A computation that gives a value and counts no reference. -/
def Gives (action : Counted α) (value : α) : Prop := ∀ left, action.run left = some (value, left)

/-- A value by itself counts no reference. -/
theorem gives_pure (value : α) : Gives (pure value) value := fun _ => rfl

/-- Two computations that count no reference count none one after the other. -/
theorem Gives.bind {action : Counted α} {value : α} {next : α → Counted β} {last : β}
    (first : Gives action value) (second : Gives (next value) last) :
    Gives (action >>= next) last := by
  intro left
  rw [StateT.run_bind, first left]
  exact second left

/-- Computations that each give a value give all of them. -/
theorem gives_mapM {step : α → Counted β} {related : α → γ → Prop} (value : γ → β)
    (each : ∀ item result, related item result → Gives (step item) (value result))
    {items : List α} {results : List γ} (all : List.Forall₂ related items results) :
    Gives (items.mapM step) (results.map value) := by
  induction all with
  | nil => exact gives_pure []
  | cons first rest ih =>
    rw [List.mapM_cons]
    exact (each _ _ first).bind (ih.bind (gives_pure _))

end Counted

/-- The value that glyphs show is what they are resolved to. -/
theorem expandValue_gives (entities : Entities) {quote : Char} {glyphs : List Glyph} {value : Text}
    (shown : List.Forall₂ (Glyph.Shows (PlainInValue quote)) glyphs value) :
    Counted.Gives (expandValue entities glyphs) value := by
  rw [expandValue, Glyph.joinLineEnds_eq shown (by simp [PlainInValue])]
  have single : (value.map fun character => [character]).flatten = value := by
    rw [← List.flatMap_def, List.flatMap_singleton']
  refine (Counted.gives_mapM (fun character => [character])
    (fun glyph character first => ?_) shown).bind ?_
  · rcases first with ⟨rfl, itself⟩ | rfl
    · have same : attributeCharacter character = character := by
        simp only [PlainInValue, List.mem_cons, not_or] at itself
        rw [attributeCharacter, if_neg]
        rintro (tab | feed | ending)
        · exact itself.2.2.1 tab
        · exact itself.2.2.2.1 feed
        · exact itself.2.2.2.2.1 ending
      simp only [same]
      exact Counted.gives_pure _
    · exact Counted.gives_pure _
  · rw [single]
    exact Counted.gives_pure value

end ApiPages.Xml
