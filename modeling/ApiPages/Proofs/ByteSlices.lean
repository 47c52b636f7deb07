import ApiPages.Proofs.Unindenting

/-!
# Slices by bytes

A text is kept in bytes, and a slice of it begins at some byte. That fails if the text ends before
that byte, or if a character has begun before it and has not ended. Unindenting takes two kinds of
slices: one of the lines, from the first to the last that is not blank, and one of every such line,
from the byte at which the smallest indentation ends. No slice fails, because all of a smallest
indentation is spaces and tabs, which are one byte each, and every line has at least as many.
-/
namespace ApiPages.Text

variable {line : Text} {rows kept : List Text}

/-- The number of bytes of a text. -/
def byteLength (text : Text) : Nat := (String.ofList text).utf8ByteSize

/-- The rest of a text from a byte on, if the text reaches up to there and no character is cut. -/
def fromByte? (text : Text) (offset : Nat) : Option Text :=
  let written := String.ofList text
  if valid : (⟨offset⟩ : String.Pos.Raw).IsValid written then
    some (written.sliceFrom (written.pos ⟨offset⟩ valid)).copy.toList
  else none

/-- The number of bytes that the spaces and tabs at the start of a line take. -/
def byteIndentation (line : Text) : Nat :=
  byteLength line - byteLength (line.dropWhile isIndent)

/-- The smallest number of such bytes in lines that are not blank, zero when all are. -/
def byteMargin (rows : List Text) : Nat :=
  ((rows.filter fun row => !isBlank row).map byteIndentation).min?.getD 0

/-- The position of the first line that is not blank. -/
def firstVisible? (rows : List Text) : Option Nat := rows.findIdx? fun row => !isBlank row

/-- The position of the last line that is not blank. -/
def lastVisible? (rows : List Text) : Option Nat :=
  (rows.reverse.findIdx? fun row => !isBlank row).map (rows.length - 1 - ·)

/-- The position behind the last line that is not blank, or behind all lines. -/
def visibleEnd (rows : List Text) : Nat := ((lastVisible? rows).map (· + 1)).getD rows.length

/-- The lines from one position up to another, if these are in order and not behind all lines. -/
def sliceRows? (rows : List Text) (start stop : Nat) : Option (List Text) :=
  if start ≤ stop ∧ stop ≤ rows.length then some (rows.extract start stop) else none

/-- Shifts a line by a slice, unless it is blank. -/
def shiftBySlice? (margin : Nat) (line : Text) : Option Text :=
  if line.isBlank then some [] else (line.fromByte? margin).map trimEnd

/-- Unindents a text by slices, and fails if one of them does. -/
def unindentBySlices? (text : Text) : Option Text :=
  let rows := lines text
  match firstVisible? rows with
  | none => some []
  | some start => do
    let kept ← sliceRows? rows start (visibleEnd rows)
    let shown ← kept.mapM (shiftBySlice? (byteMargin kept))
    some (joinWith ['\n'] shown)

/-! ### Bytes -/

/-- The bytes of joined texts add up. -/
theorem byteLength_append (front back : Text) :
    byteLength (front ++ back) = byteLength front + byteLength back := by
  rw [byteLength, String.ofList_append, String.utf8ByteSize_append, byteLength, byteLength]

/-- Spaces and tabs are one byte each. -/
theorem byteLength_of_isIndent {text : Text} (spaces : ∀ sign ∈ text, isIndent sign) :
    byteLength text = text.length := by
  induction text with
  | nil => rfl
  | cons head rest ih =>
    obtain ⟨own, later⟩ := List.forall_mem_cons.1 spaces
    have single : byteLength [head] = 1 := by
      rw [byteLength, ← String.singleton_eq_ofList, String.utf8ByteSize_singleton]
      rcases isIndent_iff.1 own with rfl | rfl <;> rfl
    rw [← List.singleton_append, byteLength_append, single, ih later, List.length_append,
      List.length_singleton]

/-- The indentation of a line has as many bytes as signs. -/
theorem byteIndentation_eq (line : Text) : byteIndentation line = indentation line := by
  have spaces : ∀ sign ∈ line.takeWhile isIndent, isIndent sign := fun _ => List.mem_takeWhile_imp
  have whole := byteLength_append (line.takeWhile isIndent) (line.dropWhile isIndent)
  rw [List.takeWhile_append_dropWhile, byteLength_of_isIndent spaces] at whole
  rw [byteIndentation, whole, indentation, Nat.add_sub_cancel]

/-- The smallest indentation is the same in bytes and in characters. -/
theorem byteMargin_eq (rows : List Text) : byteMargin rows = margin rows := by
  rw [byteMargin, margin, List.map_congr_left fun row _ => byteIndentation_eq row]

/-- Where one part of a text ends a character ends. -/
theorem isValid_append (front back : Text) :
    (⟨byteLength front⟩ : String.Pos.Raw).IsValid (String.ofList (front ++ back)) :=
  String.Pos.Raw.isValid_iff_exists_append.2
    ⟨String.ofList front, String.ofList back, String.ofList_append, rfl⟩

/-- A slice from the end of one part of a text is the other part. -/
theorem fromByte?_append (front back : Text) :
    fromByte? (front ++ back) (byteLength front) = some back := by
  have valid := isValid_append front back
  let position := (String.ofList (front ++ back)).pos ⟨byteLength front⟩ valid
  have parts : position.Splits (String.ofList front) (String.ofList back) :=
    ⟨String.ofList_append, rfl⟩
  have rest := position.splits.eq_right parts
  rw [fromByte?, dif_pos valid, rest, String.toList_ofList]

/-- A slice is what follows the part of a text that has so many bytes, and there is none if no part
has. -/
theorem fromByte?_eq_some_iff {text rest : Text} {offset : Nat} :
    fromByte? text offset = some rest ↔
      ∃ front, text = front ++ rest ∧ byteLength front = offset := by
  constructor
  · intro sliced
    have valid : (⟨offset⟩ : String.Pos.Raw).IsValid (String.ofList text) := by
      by_contra broken
      rw [fromByte?, dif_neg broken] at sliced
      cases sliced
    obtain ⟨front, back, whole, ended⟩ := String.Pos.Raw.isValid_iff_exists_append.1 valid
    have parts : text = front.toList ++ back.toList := by
      rw [← String.toList_append, ← whole, String.toList_ofList]
    have bytes : byteLength front.toList = offset := by
      rw [byteLength, String.ofList_toList]
      exact congrArg String.Pos.Raw.byteIdx ended.symm
    rw [← bytes, parts, fromByte?_append] at sliced
    exact ⟨front.toList, Option.some.inj sliced ▸ parts, bytes⟩
  · rintro ⟨front, rfl, rfl⟩
    exact fromByte?_append front rest

/-- White space of three bytes is not cut behind the first of them. -/
example : fromByte? "\u3000b".toList 1 = none ∧ fromByte? "\u3000b".toList 3 = some ['b'] := by
  decide

/-- A slice of a line at a byte, which takes nothing off but spaces and tabs. -/
structure SlicesIndent (line : Text) (offset : Nat) : Prop where
  /-- The byte is not behind the end of the line. -/
  within : offset ≤ line.byteLength
  /-- No character is cut. -/
  boundary : (⟨offset⟩ : String.Pos.Raw).IsValid (String.ofList line)
  /-- There are only spaces and tabs before the byte, and the slice is what follows them. -/
  spaces : ∃ indent rest, line = indent ++ rest ∧ indent.byteLength = offset ∧
    (∀ sign ∈ indent, sign = ' ' ∨ sign = '\t') ∧ line.fromByte? offset = some rest

/-- A line can be sliced at every sign of its indentation. -/
theorem slicesIndent {margin : Nat} (within : margin ≤ indentation line) :
    SlicesIndent line margin ∧ line.fromByte? margin = some (line.drop margin) := by
  have early := isIndent_of_mem_take within
  have inside := le_length_of_le_indentation within
  have bytes : byteLength (line.take margin) = margin := by
    rw [byteLength_of_isIndent early, List.length_take_of_le inside]
  have valid := isValid_append (line.take margin) (line.drop margin)
  rw [bytes, List.take_append_drop] at valid
  have whole := (List.take_append_drop margin line).symm
  have rest := fromByte?_eq_some_iff.2 ⟨_, whole, bytes⟩
  refine ⟨⟨valid.le_utf8ByteSize, valid, ?_⟩, rest⟩
  exact ⟨_, _, whole, bytes, fun sign listed => isIndent_iff.1 (early sign listed), rest⟩

/-! ### Positions -/

/-- Behind blank lines the first one that is not blank is found. -/
theorem findIdx?_append_cons {front : List Text} (blank : ∀ row ∈ front, row.isBlank)
    (visible : ¬line.isBlank) (others : List Text) :
    (front ++ line :: others).findIdx? (fun row => !isBlank row) = some front.length := by
  have ahead : front.findIdx? (fun row => !isBlank row) = none := by
    simpa [List.findIdx?_eq_none_iff] using blank
  simp [List.findIdx?_append, ahead, List.findIdx?_cons, visible]

/-- The kept lines are a slice between the positions that are found. -/
structure IsSlice (rows kept : List Text) (start : Nat) : Prop where
  /-- There is a line at the first position. -/
  ordered : start < visibleEnd rows
  /-- The last position is not behind all lines. -/
  within : visibleEnd rows ≤ rows.length
  /-- The kept lines stand between both. -/
  extract : rows.extract start (visibleEnd rows) = kept

/-- The first line that is not blank is the first one that is kept. -/
theorem IsCore.exists_firstVisible? (core : IsCore rows kept) (filled : kept ≠ []) :
    ∃ start, firstVisible? rows = some start ∧ IsSlice rows kept start := by
  obtain ⟨⟨front, back, rfl, blank⟩, first, last⟩ := core
  obtain ⟨ahead, behind⟩ := List.forall_mem_append.1 blank
  have start : firstVisible? (front ++ kept ++ back) = some front.length := by
    obtain ⟨head, others, rfl⟩ := List.exists_cons_of_ne_nil filled
    rw [firstVisible?, List.append_assoc]
    exact findIdx?_append_cons ahead (first head rfl) _
  have stop : visibleEnd (front ++ kept ++ back) = front.length + kept.length := by
    obtain ⟨others, final, rfl⟩ := (List.eq_nil_or_concat kept).resolve_left filled
    rw [List.concat_eq_append] at last ⊢
    -- The end is looked for from behind, where the last line that is kept is met first.
    have reversed : (front ++ (others ++ [final]) ++ back).reverse =
        back.reverse ++ final :: (others.reverse ++ front.reverse) := by simp
    have found := findIdx?_append_cons
      (fun row listed => behind row (List.mem_reverse.1 listed)) (last final (by simp))
      (others.reverse ++ front.reverse)
    rw [visibleEnd, lastVisible?, reversed, found]
    simp only [Option.map_some, Option.getD_some, List.length_append, List.length_reverse,
      List.length_singleton]
    omega
  refine ⟨_, start, ⟨?_, ?_, ?_⟩⟩
  · have := List.length_pos_iff.2 filled
    omega
  · simp only [stop, List.length_append]
    omega
  · rw [stop, List.append_assoc]
    simp

/-- No line is found exactly if none is kept. -/
theorem firstVisible?_eq_none_iff : firstVisible? rows = none ↔ coreLines rows = [] := by
  rw [firstVisible?, List.findIdx?_eq_none_iff, coreLines_eq_nil_iff]
  simp

/-! ### Unindenting -/

/-- A line is shifted by a slice as it is by counting signs. -/
theorem shiftBySlice?_eq {margin : Nat} (within : ¬line.isBlank → margin ≤ indentation line) :
    shiftBySlice? margin line = some (shiftLine margin line) := by
  rw [shiftBySlice?, shiftLine]
  split
  · rfl
  · rename_i visible
    rw [(slicesIndent (within visible)).2]
    rfl

/-- If every step gives a value, all of them do. -/
theorem mapM_eq_some_map {α β : Type} {step : α → Option β} {value : α → β} {list : List α}
    (each : ∀ head ∈ list, step head = some (value head)) :
    list.mapM step = some (list.map value) := by
  induction list with
  | nil => rfl
  | cons head rest ih =>
    obtain ⟨own, later⟩ := List.forall_mem_cons.1 each
    rw [List.mapM_cons, own, ih later]
    rfl

/-- The smallest number of bytes is within the indentation of each line that is not blank. -/
theorem byteMargin_le (listed : line ∈ rows) (visible : ¬line.isBlank) :
    byteMargin rows ≤ indentation line := by
  rw [byteMargin_eq]
  exact margin_le listed visible

/-- Unindenting by slices gives the unindented text. -/
theorem unindentBySlices?_eq (text : Text) : unindentBySlices? text = some text.unindent := by
  rw [unindentBySlices?]
  by_cases gone : coreLines text.lines = []
  · rw [unindent, unindentLines, gone, firstVisible?_eq_none_iff.2 gone]
    rfl
  · obtain ⟨start, found, slice⟩ := (isCore_coreLines text.lines).exists_firstVisible? gone
    have rows : sliceRows? text.lines start (visibleEnd text.lines) =
        some (coreLines text.lines) := by
      rw [sliceRows?, if_pos ⟨slice.ordered.le, slice.within⟩, slice.extract]
    have shown := mapM_eq_some_map fun line (listed : line ∈ coreLines text.lines) =>
      shiftBySlice?_eq (byteMargin_le listed)
    rw [byteMargin_eq] at shown
    simp only [found, rows, byteMargin_eq, Option.bind_eq_bind, Option.bind_some, shown]
    rfl

/-- No slice fails when a text is unindented. If some line is not blank, the position of the first
such line is before the position behind the last one, which is not behind all lines. Every line
between the two that is not blank can be sliced at the smallest number of bytes that the spaces and
tabs at the start of any of them take: the line is at least that long, no character is cut, and only
spaces and tabs are taken off. So unindenting by slices always gives a text, which is the unindented
one. -/
theorem unindent_by_slices (text : Text) :
    (∀ start, firstVisible? text.lines = some start →
      start < visibleEnd text.lines ∧ visibleEnd text.lines ≤ text.lines.length ∧
      let kept := text.lines.extract start (visibleEnd text.lines)
      ∀ line ∈ kept, ¬line.isBlank → SlicesIndent line (byteMargin kept)) ∧
    unindentBySlices? text = some text.unindent := by
  refine ⟨fun other same => ?_, unindentBySlices?_eq text⟩
  have filled : coreLines text.lines ≠ [] := by
    intro gone
    rw [firstVisible?_eq_none_iff.2 gone] at same
    cases same
  obtain ⟨start, found, slice⟩ := (isCore_coreLines text.lines).exists_firstVisible? filled
  obtain rfl : start = other := Option.some.inj (found.symm.trans same)
  refine ⟨slice.ordered, slice.within, ?_⟩
  rw [slice.extract]
  exact fun line listed visible => (slicesIndent (byteMargin_le listed visible)).1

end ApiPages.Text
