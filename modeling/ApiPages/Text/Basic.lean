/-!
# Texts

A text is the list of its characters. Cutting at a mark, replacing and searching are defined by
recursion on that list; splitting at every mark and joining are the list operations
`List.splitOn` and `List.intercalate`. The laws here say that cutting a text loses nothing.
-/
namespace ApiPages

/-- A text, character by character. -/
abbrev Text := List Char

namespace Text

/-- The part of a text before the first `mark`; all of it when there is none. -/
def before (mark : Char) (text : Text) : Text := text.takeWhile (· ≠ mark)

/-- The part of a text after the last `mark`; all of it when there is none. -/
def afterLast (mark : Char) (text : Text) : Text :=
  (text.reverse.takeWhile (· ≠ mark)).reverse

/-- The two sides of the first `mark`, the mark left out. -/
def cutAt (mark : Char) : Text → Option (Text × Text)
  | [] => none
  | head :: rest =>
    if head = mark then some ([], rest)
    else (cutAt mark rest).map fun (left, right) => (head :: left, right)

/-- What follows a given start of a text, if the text starts so. -/
def dropStart? : (start : Text) → Text → Option Text
  | [], text => some text
  | _ :: _, [] => none
  | expected :: start, head :: rest => if expected = head then dropStart? start rest else none

/-- The two sides of the first occurrence of a text, the occurrence left out. -/
def cutAtText (target : Text) : Text → Option (Text × Text)
  | [] => if target = [] then some ([], []) else none
  | head :: rest =>
    match dropStart? target (head :: rest) with
    | some right => some ([], right)
    | none => (cutAtText target rest).map fun (left, right) => (head :: left, right)

/-- Whether another text occurs somewhere in a text. -/
def holds (text target : Text) : Bool := (cutAtText target text).isSome

/-- Replaces the occurrences of `target` from left to right while `passed` counts down the
characters of the occurrence under way; replacements are not searched. -/
def replaceFrom (target replacement : Text) : Nat → Text → Text
  | _, [] => []
  | passed + 1, _ :: rest => replaceFrom target replacement passed rest
  | 0, head :: rest =>
    if target.isPrefixOf (head :: rest) then
      replacement ++ replaceFrom target replacement (target.length - 1) rest
    else head :: replaceFrom target replacement 0 rest

/-- Replaces every occurrence of a non-empty `target`, without overlap and from left to right. -/
def replaceAll (text target replacement : Text) : Text := replaceFrom target replacement 0 text

/-- Writes `separator` for every line feed. -/
def withLineEnds (text separator : Text) : Text :=
  text.flatMap fun character => if character = '\n' then separator else [character]

/-- Joins texts with a separator between neighbours. -/
def joinWith (separator : Text) (texts : List Text) : Text := separator.intercalate texts

/-- A number in decimal digits. -/
def ofNat (number : Nat) : Text := Nat.toDigits 10 number

/-- The characters below 128 that can control a terminal, with what is written for them: the bell,
the backspace, the form feed, the escape and the delete character. -/
def controls : List (Char × Text) :=
  [('\x07', "\\x07".toList), ('\x08', "\\x08".toList), ('\x0c', "\\x0c".toList),
    ('\x1b', "\\x1b".toList), ('\x7f', "\\x7f".toList)]

/-- Writes a character so that it cannot control a terminal: one of `controls` as listed there, one
from 128 to 159 by its code, and any other character as it is. -/
def withoutControl (character : Char) : Text :=
  match controls.find? (·.1 = character) with
  | some (_, written) => written
  | none =>
    if 0x80 ≤ character.toNat ∧ character.toNat ≤ 0x9F then
      "\\u\x7b".toList ++ Nat.toDigits 16 character.toNat ++ "\x7d".toList
    else [character]

/-- A start and what follows it make up the text. -/
theorem dropStart?_eq_some_iff {start text rest : Text} :
    dropStart? start text = some rest ↔ text = start ++ rest := by
  induction start generalizing text with
  | nil => simp [dropStart?]
  | cons expected start ih =>
    cases text with
    | nil => simp [dropStart?]
    | cons head others =>
      by_cases same : expected = head
      · simp [dropStart?, same, ih]
      · simp [dropStart?, same, Ne.symm same]

/-- Cutting at a text loses nothing but the text. -/
theorem eq_of_cutAtText {target text left right : Text}
    (found : cutAtText target text = some (left, right)) : text = left ++ target ++ right := by
  induction text generalizing left with
  | nil => simp_all [cutAtText]
  | cons head rest ih =>
    simp only [cutAtText] at found
    split at found
    · rename_i following taken
      simp only [Option.some.injEq, Prod.mk.injEq] at found
      obtain ⟨rfl, rfl⟩ := found
      simpa using dropStart?_eq_some_iff.1 taken
    · simp only [Option.map_eq_some_iff, Prod.exists, Prod.mk.injEq] at found
      obtain ⟨first, second, inner, rfl, rfl⟩ := found
      simp [ih inner]

/-- Cutting at a mark loses nothing but the mark. -/
theorem eq_of_cutAt {mark : Char} {text left right : Text}
    (found : cutAt mark text = some (left, right)) : text = left ++ mark :: right := by
  induction text generalizing left with
  | nil => simp [cutAt] at found
  | cons head rest ih =>
    by_cases same : head = mark
    · simp [cutAt, same] at found
      obtain ⟨rfl, rfl⟩ := found
      simp [same]
    · simp only [cutAt, if_neg same, Option.map_eq_some_iff, Prod.exists, Prod.mk.injEq] at found
      obtain ⟨first, second, inner, rfl, rfl⟩ := found
      simp [ih inner]

/-- The cut is at the first mark. -/
theorem not_mem_of_cutAt {mark : Char} {text left right : Text}
    (found : cutAt mark text = some (left, right)) : mark ∉ left := by
  induction text generalizing left with
  | nil => simp [cutAt] at found
  | cons head rest ih =>
    by_cases same : head = mark
    · simp [cutAt, same] at found
      simp [found.1]
    · simp only [cutAt, if_neg same, Option.map_eq_some_iff, Prod.exists, Prod.mk.injEq] at found
      obtain ⟨first, second, inner, rfl, rfl⟩ := found
      simpa [Ne.symm same] using ih inner

/-- A text is cut unless it lacks the mark. -/
theorem cutAt_eq_none_iff {mark : Char} {text : Text} :
    cutAt mark text = none ↔ mark ∉ text := by
  induction text with
  | nil => simp [cutAt]
  | cons head rest ih =>
    by_cases same : head = mark
    · simp [cutAt, same]
    · simp [cutAt, same, ih, Ne.symm same]

/-- A text without the mark in front of a mark is what the cut finds. -/
theorem cutAt_append {mark : Char} {left : Text} (absent : mark ∉ left) (right : Text) :
    cutAt mark (left ++ mark :: right) = some (left, right) := by
  induction left with
  | nil => simp [cutAt]
  | cons head rest ih =>
    simp only [List.mem_cons, not_or] at absent
    simp [cutAt, Ne.symm absent.1, ih absent.2]

end Text
end ApiPages
