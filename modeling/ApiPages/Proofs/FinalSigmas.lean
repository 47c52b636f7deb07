import ApiPages.Markdown.Anchor

/-!
# Final sigmas in anchors

Lowercasing looks around a character only where the character is a capital sigma, and what it sees
there decides no more than which small sigma is written. So the lowercase form of a text is made up
of the lowercase forms of its characters, up to final sigmas and entirely if the text holds no
capital sigma. It follows that an anchor, which is lowercased as a whole, is that far the same as
its two parts lowercased by themselves: the dot between the parts is passed over in the search for
cased letters, so that a sigma next to it may look into the other part.
-/
namespace ApiPages

namespace Text

/-- A character, with a final sigma as the sigma inside a word. -/
def unfinal (character : Char) : Char := if character = finalSigma then smallSigma else character

/-- Up to final sigmas, the rest of a text is lowercased character by character, whatever has been
passed before it. -/
theorem unfinal_lowercaseFrom (reversedBefore text : Text) :
    (lowercaseFrom reversedBefore text).map unfinal =
      text.flatMap fun character => (lowercaseCharacter character).map unfinal := by
  have inside : (lowercaseCharacter capitalSigma).map unfinal = [unfinal smallSigma] := by decide
  have ending : unfinal finalSigma = unfinal smallSigma := by decide
  induction text generalizing reversedBefore with
  | nil => rfl
  | cons head rest ih =>
    rw [lowercaseFrom, List.map_append, ih, List.flatMap_cons]
    by_cases sigma : head = capitalSigma
    · cases endsWord reversedBefore rest <;> simp [sigma, inside, ending]
    · simp [sigma]

/-- Without a capital sigma, the rest of a text is lowercased character by character, whatever has
been passed before it. -/
theorem lowercaseFrom_of_notMem {text : Text} (absent : capitalSigma ∉ text)
    (reversedBefore : Text) :
    lowercaseFrom reversedBefore text = text.flatMap lowercaseCharacter := by
  induction text generalizing reversedBefore with
  | nil => rfl
  | cons head rest ih =>
    obtain ⟨here, later⟩ : capitalSigma ≠ head ∧ capitalSigma ∉ rest := by simpa using absent
    rw [lowercaseFrom, if_neg here.symm, ih later, List.flatMap_cons]

/-- A dot is its own lowercase form. -/
theorem lowercaseCharacter_dot : lowercaseCharacter '.' = ['.'] := by decide

end Text

namespace Markdown

open Text

/-- An anchor, lowercased as a whole, and its namespace and name lowercased by themselves with a dot
between them are the same text once every final sigma is written as the sigma inside a word. They
are the same outright if neither the namespace nor the name holds a capital sigma. -/
theorem anchor_agrees_with_parts (space name : Text) :
    let parts := lowercase space ++ '.' :: lowercase name
    (anchor space name).map (fun sign => if sign = 'ς' then 'σ' else sign) =
        parts.map (fun sign => if sign = 'ς' then 'σ' else sign) ∧
      ('Σ' ∉ space → 'Σ' ∉ name → anchor space name = parts) := by
  intro parts
  constructor
  · change (anchor space name).map unfinal = parts.map unfinal
    have dot : unfinal '.' = '.' := by decide
    simp only [anchor, parts, lowercase, List.map_append, List.map_cons, unfinal_lowercaseFrom,
      List.flatMap_append, List.flatMap_cons, lowercaseCharacter_dot]
    simp
  · intro spaceLacks nameLacks
    have lacks : capitalSigma ∉ space ++ '.' :: name := by
      have dot : capitalSigma ≠ '.' := by decide
      simp only [List.mem_append, List.mem_cons, not_or]
      exact ⟨spaceLacks, dot, nameLacks⟩
    simp only [anchor, parts, lowercase, lowercaseFrom_of_notMem lacks,
      lowercaseFrom_of_notMem spaceLacks, lowercaseFrom_of_notMem nameLacks,
      List.flatMap_append, List.flatMap_cons, lowercaseCharacter_dot]
    rfl

/-- A namespace with a letter whose lowercase form is two characters, and a name that ends in a
final sigma as it stands. -/
theorem anchor_agrees_with_parts_of_small_sigma :
    let space := "İΖ".toList
    let name := "Οδός".toList
    'Σ' ∉ space ∧ 'Σ' ∉ name ∧
      anchor space name = lowercase space ++ '.' :: lowercase name ∧
      anchor space name = "i̇ζ.οδός".toList := by
  intro space name
  have spaceLacks : 'Σ' ∉ space := by decide
  have nameLacks : 'Σ' ∉ name := by decide
  exact ⟨spaceLacks, nameLacks,
    (anchor_agrees_with_parts space name).2 spaceLacks nameLacks, by decide⟩

-- The sigma that ends the namespace looks over the dot and meets the letter behind it.
example : anchor "ΟΣ".toList ['Α'] = "οσ.α".toList ∧
    lowercase "ΟΣ".toList = "ος".toList := by
  decide +kernel

end Markdown

end ApiPages
