import Mathlib.Data.List.Induction
import ApiPages.Proofs.Lines
import ApiPages.Proofs.ShortReference
import ApiPages.Proofs.WhiteSpace
import ApiPages.Text.Lowercase

/-!
# Line feeds in texts

A text with a carriage return in front of every line feed is trimmed where the text itself is, for
both signs are white space, and a text without line feeds is left alone. Most of what is made of
texts brings in no line feed of its own: collapsing removes them all, and trimming, lowercasing,
decoding an identifier and shortening a reference only keep what they find.
-/
namespace ApiPages

namespace Text

/-- A text with a carriage return in front of every line feed. -/
def withReturns (text : Text) : Text := text.withLineEnds "\r\n".toList

variable {text : Text}

/-- Carriage returns are put into joined texts one after the other. -/
@[simp]
theorem withReturns_append (first second : Text) :
    (first ++ second).withReturns = first.withReturns ++ second.withReturns :=
  withLineEnds_append first second _

/-- A line feed gets a carriage return, and any other character stays. -/
theorem withReturns_cons (head : Char) (rest : Text) :
    withReturns (head :: rest) =
      (if head = '\n' then ['\r', '\n'] else [head]) ++ withReturns rest := by
  rw [withReturns, withLineEnds, List.flatMap_cons]
  rfl

/-- A text without line feeds is left as it is. -/
theorem withReturns_of_notMem (line : '\n' ∉ text) : text.withReturns = text :=
  withLineEnds_of_notMem line _

/-- Nothing becomes of nothing only. -/
theorem withReturns_eq_nil_iff : text.withReturns = [] ↔ text = [] := by
  cases text with
  | nil => exact iff_of_true rfl rfl
  | cons head rest =>
    rw [withReturns_cons]
    split <;> simp

/-- Writing a line feed for every line feed changes nothing. -/
theorem withLineEnds_feed (text : Text) : text.withLineEnds ['\n'] = text := by
  induction text using lineInduction with
  | last line feedless => exact withLineEnds_of_notMem feedless _
  | more line rest feedless ih =>
    rw [withLineEnds_line feedless, ih, List.append_assoc, List.singleton_append]

/-- What stands for a character is white space if the character is. -/
theorem isBlank_withReturns_singleton (character : Char) :
    (withReturns [character]).isBlank = isSpace character := by
  by_cases feed : character = '\n'
  · rw [feed]
    decide
  · have kept : withReturns [character] = [character] :=
      withReturns_of_notMem (by simpa using Ne.symm feed)
    simp [kept, isBlank]

/-- White space is cut off the start, whichever separators it holds. -/
theorem trimStart_withReturns (text : Text) :
    text.withReturns.trimStart = text.trimStart.withReturns := by
  have cut : ∀ (head : Char) (rest : Text), trimStart (head :: rest) =
      if isSpace head then trimStart rest else head :: rest := fun _ _ => List.dropWhile_cons
  induction text with
  | nil => rfl
  | cons head rest ih =>
    by_cases feed : head = '\n'
    · have start : withReturns (head :: rest) = '\r' :: '\n' :: withReturns rest := by
        rw [withReturns_cons, if_pos feed]
        rfl
      have white : isSpace '\r' ∧ isSpace '\n' := by decide
      rw [start, cut, if_pos white.1, cut, if_pos white.2, ih, cut, feed, if_pos white.2]
    · have start : withReturns (head :: rest) = head :: withReturns rest := by
        rw [withReturns_cons, if_neg feed, List.singleton_append]
      rw [start, cut, cut, ih]
      split
      · rfl
      · exact start.symm

/-- White space is cut off the end, whichever separators it holds. -/
theorem trimEnd_withReturns (text : Text) :
    text.withReturns.trimEnd = text.trimEnd.withReturns := by
  induction text using List.reverseRecOn with
  | nil => rfl
  | append_singleton front last ih =>
    rw [withReturns_append]
    by_cases white : isSpace last
    · rw [trimEnd_append_of_isBlank _ ((isBlank_withReturns_singleton last).trans white), ih,
        trimEnd_append_of_isBlank front (by simpa [isBlank] using white)]
    · have visible : isSpace last = false := by simpa using white
      have other : '\n' ∉ [last] := by
        intro feed
        rw [← List.mem_singleton.1 feed] at visible
        exact absurd visible (by decide)
      have kept : ∀ text : Text, (text ++ [last]).trimEnd = text ++ [last] := by
        intro text
        simpa [trimEnd] using trimEnd_append visible text []
      rw [withReturns_of_notMem other, kept, kept, withReturns_append, withReturns_of_notMem other]

/-- Trimming cuts the same off a text whichever separators it holds. -/
theorem trim_withReturns (text : Text) : text.withReturns.trim = text.trim.withReturns := by
  rw [trim, trimStart_withReturns, trimEnd_withReturns, trim]

/-! ### Texts that stay on a line -/

/-- Trimming keeps only what it finds. -/
theorem trim_subset (text : Text) : text.trim ⊆ text := by
  intro character kept
  rw [trim, trimEnd, List.mem_reverse] at kept
  have within := List.mem_reverse.1 ((List.dropWhile_sublist _).subset kept)
  exact (List.dropWhile_sublist _).subset within

/-- What stands after the last mark stands in the text. -/
theorem afterLast_subset (mark : Char) (text : Text) : text.afterLast mark ⊆ text := by
  intro character listed
  rw [afterLast, List.mem_reverse] at listed
  exact List.mem_reverse.1 ((List.takeWhile_sublist _).subset listed)

/-- No line feed is left in a text that is collapsed. -/
theorem notMem_collapse (text : Text) : '\n' ∉ text.collapse := by
  have running : ∀ spaced, '\n' ∉ collapseFrom spaced text := by
    induction text with
    | nil => simp [collapseFrom]
    | cons head rest ih =>
      intro spaced
      by_cases white : isSpace head
      · cases spaced <;> simp [collapseFrom, white, ih]
      · have other : '\n' ≠ head := by
          rintro rfl
          exact white (by decide)
        simp [collapseFrom, white, other, ih]
  exact running false

/-- A small letter that is a line feed is one already. -/
theorem smallLetter_ne {character : Char} (other : character ≠ '\n') :
    smallLetter character ≠ '\n' := by
  have above : ∀ capitals ∈ CaseData.capitals, 10 < (capitals.first : Int) + capitals.shift := by
    decide +kernel
  rw [smallLetter]
  split
  · rename_i capitals found
    have listed := above _ (List.mem_of_find?_eq_some found)
    have covered : capitals.contains character.toNat = true := by
      simpa using List.find?_some found
    have start : capitals.first ≤ character.toNat := by
      simp only [CaseData.Capitals.contains, Bool.and_eq_true, decide_eq_true_eq] at covered
      exact covered.1.1
    intro feed
    by_cases valid : ((character.toNat : Int) + capitals.shift).toNat.isValidChar
    · rw [Char.ofNat, dif_pos valid] at feed
      have ten : ((character.toNat : Int) + capitals.shift).toNat = 10 := congrArg Char.toNat feed
      omega
    · rw [Char.ofNat, dif_neg valid] at feed
      exact absurd (congrArg Char.toNat feed) (by decide)
  · exact other

/-- Lowercasing brings in no line feed. -/
theorem notMem_lowercase (line : '\n' ∉ text) : '\n' ∉ text.lowercase := by
  have running : ∀ before, '\n' ∉ lowercaseFrom before text := by
    induction text with
    | nil => simp [lowercaseFrom]
    | cons head rest ih =>
      intro before
      obtain ⟨other, later⟩ := not_or.1 (mt List.mem_cons.2 line)
      have small : '\n' ∉ lowercaseCharacter head := by
        rw [lowercaseCharacter]
        split
        · decide
        · simpa using Ne.symm (smallLetter_ne (Ne.symm other))
      have sigma : ∀ final : Bool, '\n' ∉ [if final then finalSigma else smallSigma] := by decide
      rw [lowercaseFrom, List.mem_append, not_or]
      refine ⟨?_, ih later _⟩
      split
      · exact sigma _
      · exact small
  exact running []

/-- A text stands in every text that it is joined to. -/
theorem subset_joinWith (separator : Text) {texts : List Text} (listed : text ∈ texts) :
    text ⊆ joinWith separator texts := by
  induction texts with
  | nil => cases listed
  | cons first others ih =>
    rw [joinWith]
    cases others with
    | nil =>
      rw [List.intercalate_singleton, List.mem_singleton.1 listed]
      exact List.Subset.refl _
    | cons second rest =>
      rw [List.intercalate_cons_cons]
      rcases List.mem_cons.1 listed with rfl | later
      · exact fun _ own => List.mem_append_left _ (List.mem_append_left _ own)
      · exact fun _ own => List.mem_append_right _ (ih later own)

end Text

namespace Identifier

/-- Dropping parameters keeps only what it finds. -/
theorem withoutParameters_subset (path : Text) : withoutParameters path ⊆ path := by
  have closed : ∀ {text following : Text}, afterClosing text = some following →
      following ⊆ text := by
    intro text
    induction text with
    | nil => simp [afterClosing]
    | cons head rest ih =>
      intro following found
      rw [afterClosing] at found
      split at found
      · exact Option.some.inj found ▸ List.subset_cons_self _ _
      split at found
      · cases found
      · exact List.Subset.trans (ih found) (List.subset_cons_self _ _)
  induction path with
  | nil => simp [withoutParameters]
  | cons head rest ih =>
    rw [withoutParameters]
    split
    · rename_i following found
      split at found
      · exact List.Subset.trans (closed found) (List.subset_cons_self _ _)
      · cases found
    · exact List.cons_subset_cons _ ih

/-- A decoded identifier stays on a line if the text it is read from does. -/
theorem notMem_decode {raw : Text} {identifier : Identifier} (line : '\n' ∉ raw)
    (decoded : decode raw = .ok identifier) :
    '\n' ∉ identifier.space ∧ '\n' ∉ identifier.name := by
  rw [decode] at decoded
  split at decoded
  · cases decoded
  · cases decoded
  rename_i kind path _ cut
  have within : withoutParameters path ⊆ raw := by
    refine List.Subset.trans (withoutParameters_subset path) ?_
    rw [Text.eq_of_cutAt cut]
    exact fun _ listed => List.mem_append_right _ (List.mem_cons_of_mem _ listed)
  have pieces : ∀ piece ∈ ((withoutParameters path).splitOn '.').reverse, '\n' ∉ piece := by
    intro piece listed feed
    have joined : Text.joinWith ['.'] ((withoutParameters path).splitOn '.') =
        withoutParameters path := List.intercalate_splitOn '.'
    refine line (within (joined ▸ Text.subset_joinWith _ (List.mem_reverse.1 listed) feed))
  split at decoded
  · cases decoded
  · cases decoded
  rename_i name outer _ split
  rw [split] at pieces
  obtain ⟨named, others⟩ := List.forall_mem_cons.1 pieces
  have spaces : ∀ list : List Text, list ⊆ outer →
      '\n' ∉ Text.joinWith ['.'] list.reverse := fun list within =>
    Text.notMem_joinWith (by decide) fun piece listed =>
      others piece (within (List.mem_reverse.1 listed))
  split at decoded
  · obtain rfl := Except.ok.inj decoded
    exact ⟨spaces outer (List.Subset.refl _), named⟩
  · cases outer with
    | nil => cases decoded
    | cons type rest =>
      obtain rfl := Except.ok.inj decoded
      exact ⟨spaces rest (List.subset_cons_self _ _), named⟩

end Identifier

namespace Markdown

/-- A short reference stays on a line if the reference does. -/
theorem notMem_shortReference {target : Text} (line : '\n' ∉ target) :
    '\n' ∉ shortReference target := by
  intro feed
  have path : referencePath target ⊆ target := by
    rw [referencePath]
    split
    · rename_i kind path cut
      rw [Text.eq_of_cutAt cut]
      exact fun _ listed => List.mem_append_right _ (List.mem_cons_of_mem _ listed)
    · exact List.Subset.refl _
  have named := Text.mem_of_mem_before (Text.afterLast_subset '.' _ feed)
  exact line (path (mem_of_mem_withoutFinalParameters named))

end Markdown

end ApiPages
