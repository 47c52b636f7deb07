import ApiPages.Proofs.WhiteSpace

/-!
# Texts that hold pieces in order

A text holds pieces in order if they stand in it one behind the other, without overlap and with
anything in between. Joining two texts joins the pieces they hold. Pieces that begin and end with a
visible sign are left whole when white space is cut off the ends of the text around them.
-/
namespace ApiPages.Text

/-- The pieces stand in the text one behind the other, with anything before, between and after. -/
def HoldsInOrder : Text → List Text → Prop
  | _, [] => True
  | text, piece :: others => ∃ gap rest, text = gap ++ piece ++ rest ∧ HoldsInOrder rest others

/-- A text that begins and ends with a visible sign. -/
structure Tight (piece : Text) : Prop where
  /-- The first sign is visible. -/
  starts : ∃ sign rest, piece = sign :: rest ∧ isSpace sign = false
  /-- The last sign is visible. -/
  ends : ∃ front sign, piece = front ++ [sign] ∧ isSpace sign = false

/-- A text is its trimmed form with white space around it. -/
theorem exists_eq_trim (text : Text) :
    ∃ front back : Text, front.isBlank ∧ back.isBlank ∧ text = front ++ text.trim ++ back := by
  obtain ⟨back, white, whole⟩ := exists_eq_trimEnd text.trimStart
  have front : isBlank (text.takeWhile isSpace) :=
    List.all_eq_true.2 fun _ => List.mem_takeWhile_imp
  refine ⟨_, back, front, white, ?_⟩
  rw [trim, List.append_assoc, ← whole, trimStart, List.takeWhile_append_dropWhile]

/-- A text that is not blank begins with a visible sign once white space is cut off its start. -/
theorem exists_trimStart_eq {text : Text} (filled : ¬text.isBlank) :
    ∃ sign rest, text.trimStart = sign :: rest ∧ isSpace sign = false := by
  have start := List.head?_dropWhile_not isSpace text
  cases cut : text.trimStart with
  | nil =>
    rw [← isBlank_trimStart, cut] at filled
    exact absurd rfl filled
  | cons sign rest =>
    rw [trimStart] at cut
    rw [cut] at start
    exact ⟨sign, rest, rfl, start⟩

/-- A text that is not blank is tight once white space is cut off its ends. -/
theorem tight_trim {text : Text} (filled : ¬text.isBlank) : text.trim.Tight where
  starts := by
    obtain ⟨sign, rest, cut, visible⟩ := exists_trimStart_eq filled
    have kept := trimEnd_append visible [] rest
    rw [trim, cut]
    exact ⟨sign, trimEnd rest, kept, visible⟩
  ends := by
    have reversed : ¬isBlank text.trimStart.reverse := by
      rwa [isBlank, List.all_reverse, ← isBlank, isBlank_trimStart]
    obtain ⟨sign, rest, cut, visible⟩ := exists_trimStart_eq reversed
    rw [trimStart] at cut
    exact ⟨rest.reverse, sign, by rw [trim, trimEnd, cut, List.reverse_cons], visible⟩

namespace HoldsInOrder

variable {text : Text} {pieces : List Text}

/-- A text in front changes nothing. -/
theorem behind (front : Text) (holds : text.HoldsInOrder pieces) :
    HoldsInOrder (front ++ text) pieces := by
  cases pieces with
  | nil => exact trivial
  | cons piece others =>
    obtain ⟨gap, rest, rfl, later⟩ := holds
    exact ⟨front ++ gap, rest, by simp only [List.append_assoc], later⟩

/-- Texts one behind the other hold the pieces of the first and then those of the second. -/
theorem append {second : Text} {others : List Text} (holds : text.HoldsInOrder pieces)
    (next : second.HoldsInOrder others) : HoldsInOrder (text ++ second) (pieces ++ others) := by
  induction pieces generalizing text with
  | nil => exact next.behind text
  | cons piece later ih =>
    obtain ⟨gap, rest, rfl, behind⟩ := holds
    exact ⟨gap, rest ++ second, by simp only [List.append_assoc], ih behind⟩

/-- A text behind changes nothing. -/
theorem before (back : Text) (holds : text.HoldsInOrder pieces) :
    HoldsInOrder (text ++ back) pieces := by
  have behind : back.HoldsInOrder [] := trivial
  simpa using holds.append behind

/-- Texts that each hold pieces hold all of them when they are joined. -/
theorem flatMap {α : Type} {list : List α} {write : α → Text} {shown : α → List Text}
    (holds : ∀ item ∈ list, (write item).HoldsInOrder (shown item)) :
    HoldsInOrder (list.flatMap write) (list.flatMap shown) := by
  induction list with
  | nil => exact trivial
  | cons head rest ih =>
    obtain ⟨own, others⟩ := List.forall_mem_cons.1 holds
    exact own.append (ih others)

/-- A blank text holds no tight piece. -/
theorem not_isBlank {piece : Text} (tight : piece.Tight) {others : List Text}
    (holds : text.HoldsInOrder (piece :: others)) : ¬text.isBlank := by
  obtain ⟨gap, rest, rfl, -⟩ := holds
  obtain ⟨sign, following, rfl, visible⟩ := tight.starts
  simp [isBlank, visible]

/-- A text that holds a tight piece is not empty. -/
theorem ne_nil {piece : Text} (tight : piece.Tight) {others : List Text}
    (holds : text.HoldsInOrder (piece :: others)) : text ≠ [] := by
  rintro rfl
  exact holds.not_isBlank tight rfl

/-- White space in front of a text can be cut off the pieces it holds. -/
theorem of_isBlank_append {front : Text} (blank : front.isBlank)
    (tight : ∀ piece ∈ pieces, piece.Tight) (holds : HoldsInOrder (front ++ text) pieces) :
    text.HoldsInOrder pieces := by
  cases pieces with
  | nil => exact trivial
  | cons piece others =>
    obtain ⟨gap, rest, split, later⟩ := holds
    obtain ⟨sign, following, rfl, visible⟩ := (tight piece List.mem_cons_self).starts
    rw [List.append_assoc] at split
    -- A piece that began inside the white space would begin with white space.
    rcases List.append_eq_append_iff.1 split with ⟨middle, rfl, within⟩ | ⟨middle, rfl, within⟩
    · exact ⟨middle, rest, by rw [within, List.append_assoc], later⟩
    · cases middle with
      | nil => exact ⟨[], rest, within.symm, later⟩
      | cons head white =>
        obtain rfl : sign = head := (List.cons.inj within).1
        simp [isBlank, visible] at blank

/-- White space behind a text can be cut off the pieces it holds. -/
theorem of_append_isBlank {back : Text} (blank : back.isBlank)
    (tight : ∀ piece ∈ pieces, piece.Tight) (holds : HoldsInOrder (text ++ back) pieces) :
    text.HoldsInOrder pieces := by
  induction pieces generalizing text with
  | nil => exact trivial
  | cons piece others ih =>
    obtain ⟨own, later⟩ := List.forall_mem_cons.1 tight
    obtain ⟨gap, rest, split, behind⟩ := holds
    obtain ⟨front, sign, rfl, visible⟩ := own.ends
    have last : text ++ back = (gap ++ front) ++ sign :: rest := by simpa using split
    -- A piece that ended inside the white space would end with white space.
    rcases List.append_eq_append_iff.1 last with ⟨middle, reaching, within⟩ | ⟨middle, own, within⟩
    · rw [within] at blank
      simp [isBlank, visible] at blank
    · cases middle with
      | nil =>
        rw [List.nil_append] at within
        rw [← within] at blank
        simp [isBlank, visible] at blank
      | cons head kept =>
        obtain ⟨rfl, rfl⟩ := List.cons.inj within
        exact ⟨gap, kept, by simp [own], ih later behind⟩

/-- Cutting white space off the ends of a text leaves the pieces it holds. -/
theorem trim (tight : ∀ piece ∈ pieces, piece.Tight) (holds : text.HoldsInOrder pieces) :
    text.trim.HoldsInOrder pieces := by
  obtain ⟨front, back, blank, blank', whole⟩ := text.exists_eq_trim
  rw [whole] at holds
  rw [List.append_assoc] at holds
  exact (holds.of_isBlank_append blank tight).of_append_isBlank blank' tight

end HoldsInOrder

end ApiPages.Text
