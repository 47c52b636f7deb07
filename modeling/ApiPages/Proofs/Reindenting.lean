import Mathlib.Data.List.Forall2
import ApiPages.Proofs.DefaultPool
import ApiPages.Proofs.Lines
import ApiPages.Proofs.Unindenting

/-!
# Texts indented anew

A text may be moved to the right as a whole, and its line ends may be written with a carriage return
or without. Its lines then get the same spaces and tabs in front and white space behind, and there
may be a blank one more at the end. The margin grows by what is put in front, so what is left of
each line is the same, and so is the block of a code sample.
-/
namespace ApiPages

namespace Text

variable {pad line row : Text} {rows others : List Text}

/-- A line with something in front and white space behind. -/
def Padded (pad line row : Text) : Prop := ∃ trail, trail.isBlank ∧ row = pad ++ line ++ trail

namespace Padded

variable (spaces : ∀ sign ∈ pad, isIndent sign)
include spaces

/-- Spaces and tabs in front leave a line blank or not. -/
theorem isBlank_eq (padded : Padded pad line row) : isBlank line = isBlank row := by
  obtain ⟨trail, white, rfl⟩ := padded
  rw [isBlank_append, isBlank_append, isBlank_of_isIndent spaces, white, Bool.true_and,
    Bool.and_true]

/-- Spaces and tabs in front are added to the indentation. -/
theorem indentation_eq (padded : Padded pad line row) (visible : ¬line.isBlank) :
    indentation row = pad.length + indentation line := by
  obtain ⟨trail, -, rfl⟩ := padded
  exact indentation_append spaces visible trail

/-- Nothing is left of what stands in front when a line is shifted by that much more. -/
theorem shiftLine_eq {margin : Nat} (padded : Padded pad line row)
    (within : ¬line.isBlank → margin ≤ indentation line) :
    shiftLine margin line = shiftLine (pad.length + margin) row := by
  have same := padded.isBlank_eq spaces
  obtain ⟨trail, white, rfl⟩ := padded
  rw [shiftLine, shiftLine, ← same]
  split
  · rfl
  · rename_i visible
    have inside := le_length_of_le_indentation (within visible)
    rw [List.append_assoc, ← List.drop_drop, List.drop_left, List.drop_append_of_le_length inside,
      trimEnd_append_of_isBlank _ white]

end Padded

/-- Blank lines are passed over in both of two rows of lines. -/
theorem forall₂_dropWhile {related : Text → Text → Prop}
    (same : ∀ {line row}, related line row → isBlank line = isBlank row)
    (each : List.Forall₂ related rows others) :
    List.Forall₂ related (rows.dropWhile isBlank) (others.dropWhile isBlank) := by
  induction each with
  | nil => exact .nil
  | cons pair rest ih =>
    rw [List.dropWhile_cons, List.dropWhile_cons, ← same pair]
    split
    · exact ih
    · exact .cons pair rest

/-- The lines that are kept of one row are those that are kept of the other. -/
theorem forall₂_coreLines {related : Text → Text → Prop}
    (same : ∀ {line row}, related line row → isBlank line = isBlank row)
    (each : List.Forall₂ related rows others) :
    List.Forall₂ related (coreLines rows) (coreLines others) :=
  List.forall₂_reverse_iff.2
    (forall₂_dropWhile same (List.forall₂_reverse_iff.2 (forall₂_dropWhile same each)))

/-- Blank lines at the end are not kept. -/
theorem coreLines_append_of_isBlank (rows : List Text) {extra : List Text}
    (blank : ∀ row ∈ extra, row.isBlank) : coreLines (rows ++ extra) = coreLines rows := by
  obtain ⟨⟨front, back, whole, around⟩, first, last⟩ := isCore_coreLines rows
  have core : IsCore (rows ++ extra) (coreLines rows) := by
    refine ⟨⟨front, back ++ extra, ?_, ?_⟩, first, last⟩
    · rw [← List.append_assoc, ← whole]
    · rw [← List.append_assoc]
      exact List.forall_mem_append.2 ⟨around, blank⟩
  exact core.coreLines_eq

/-- The smallest of numbers that all grow by the same grows by that. -/
theorem min?_map_add (more : Nat) (numbers : List Nat) :
    (numbers.map (more + ·)).min? = numbers.min?.map (more + ·) := by
  induction numbers with
  | nil => rfl
  | cons head rest ih =>
    rw [List.map_cons, List.min?_cons, List.min?_cons, ih]
    cases rest.min? with
    | none => rfl
    | some least => simp [Nat.add_min_add_left]

/-- The lines that are not blank are indented by as much more as stands in front of them. -/
theorem map_indentation_of_padded (spaces : ∀ sign ∈ pad, isIndent sign)
    (padded : List.Forall₂ (Padded pad) rows others) :
    (others.filter fun row => !isBlank row).map indentation =
      ((rows.filter fun row => !isBlank row).map indentation).map (pad.length + ·) := by
  induction padded with
  | nil => rfl
  | @cons line row rest following pair _ ih =>
    have same := pair.isBlank_eq spaces
    by_cases blank : line.isBlank
    · rw [blank] at same
      simpa [blank, ← same] using ih
    · have deeper := pair.indentation_eq spaces blank
      rw [Bool.not_eq_true] at blank
      rw [blank] at same
      simpa [blank, ← same, deeper] using ih

/-- The margin of lines with spaces and tabs in front grows by these. -/
theorem margin_of_padded (spaces : ∀ sign ∈ pad, isIndent sign)
    (padded : List.Forall₂ (Padded pad) rows others) (listed : line ∈ rows)
    (visible : ¬line.isBlank) : margin others = pad.length + margin rows := by
  have shown : line ∈ rows.filter fun row => !isBlank row := by simpa [listed] using visible
  rw [margin, map_indentation_of_padded spaces padded, min?_map_add, margin]
  cases smallest : ((rows.filter fun row => !isBlank row).map indentation).min? with
  | none =>
    rw [List.min?_eq_none_iff, List.map_eq_nil_iff] at smallest
    exact absurd smallest (List.ne_nil_of_mem shown)
  | some least => rfl

/-- Lines with spaces and tabs in front and white space behind are shifted to the same. -/
theorem map_shiftLine_of_padded (spaces : ∀ sign ∈ pad, isIndent sign)
    (padded : List.Forall₂ (Padded pad) rows others)
    (first : ∀ line ∈ rows.head?, ¬line.isBlank) :
    rows.map (shiftLine (margin rows)) = others.map (shiftLine (margin others)) := by
  cases start : rows.head? with
  | none =>
    obtain rfl := List.head?_eq_none_iff.1 start
    obtain rfl := List.forall₂_nil_left_iff.1 padded
    rfl
  | some line =>
    rw [margin_of_padded spaces padded (List.mem_of_head? start) (first line start),
      ← List.forall₂_eq_eq_eq, List.forall₂_map_left_iff, List.forall₂_map_right_iff]
    have within : ∀ line ∈ rows, ¬line.isBlank → margin rows ≤ indentation line :=
      fun _ => margin_le
    exact ((List.forall₂_and_left _ _).2 ⟨within, padded⟩).imp fun _ _ pair =>
      pair.2.shiftLine_eq spaces pair.1

/-- Texts are unindented to the same if the lines of one have the same spaces and tabs in front and
white space behind, and blank lines follow them. -/
theorem unindent_of_padded {text other : Text} {extra : List Text}
    (spaces : ∀ sign ∈ pad, isIndent sign)
    (padded : List.Forall₂ (Padded pad) (lines text) rows)
    (split : lines other = rows ++ extra) (blank : ∀ row ∈ extra, row.isBlank) :
    other.unindent = text.unindent := by
  have kept : coreLines (lines other) = coreLines rows := by
    rw [split, coreLines_append_of_isBlank rows blank]
  have each := forall₂_coreLines (fun pair => pair.isBlank_eq spaces) padded
  have shifted := map_shiftLine_of_padded spaces each (isCore_coreLines (lines text)).first
  rw [unindent, unindentLines, kept, ← shifted, ← unindentLines, ← unindent]

/-! ### Spaces and tabs in front of every line -/

/-- Only what is behind spaces and tabs can be the carriage return of a line end. -/
theorem withoutReturn_append_of_isIndent (spaces : ∀ sign ∈ pad, isIndent sign) (line : Text) :
    withoutReturn (pad ++ line) = pad ++ withoutReturn line := by
  rcases List.eq_nil_or_concat line with rfl | ⟨front, last, rfl⟩
  · have other : pad.getLast? ≠ some '\r' := fun carriage =>
      absurd (spaces _ (List.mem_of_getLast? carriage)) (by decide)
    rw [List.append_nil, withoutReturn_of_getLast? other]
    exact (List.append_nil pad).symm
  · rw [List.concat_eq_append, ← List.append_assoc, withoutReturn, withoutReturn]
    simp only [List.getLast?_append, List.getLast?_singleton, Option.some_or,
      List.dropLast_concat]
    split <;> simp

/-- The lines of a text with spaces and tabs at its start and behind every line feed. -/
theorem exists_lines_indented (spaces : ∀ sign ∈ pad, isIndent sign) (text : Text) :
    ∃ extra : List Text, (∀ row ∈ extra, row.isBlank) ∧
      lines (pad ++ text.withLineEnds ('\n' :: pad)) = (lines text).map (pad ++ ·) ++ extra := by
  have feedless : '\n' ∉ pad := fun feed => absurd (spaces _ feed) (by decide)
  induction text using lineInduction with
  | last line own =>
    rw [withLineEnds_of_notMem own, lines_of_notMem (by simp [feedless, own]), lines_of_notMem own]
    -- Behind a line feed at the end of the text stands a line that is none in the text itself.
    rcases eq_or_ne line [] with rfl | filled
    · refine ⟨if pad = [] then [] else [pad], ?_, by simp⟩
      intro row listed
      split at listed
      · cases listed
      · exact List.mem_singleton.1 listed ▸ isBlank_of_isIndent spaces
    · exact ⟨[], nofun, by simp [filled]⟩
  | more line rest own ih =>
    obtain ⟨extra, blank, split⟩ := ih
    refine ⟨extra, blank, ?_⟩
    have moved : pad ++ (line ++ '\n' :: rest).withLineEnds ('\n' :: pad) =
        (pad ++ line) ++ '\n' :: (pad ++ rest.withLineEnds ('\n' :: pad)) := by
      rw [withLineEnds_line own]
      simp
    rw [moved, lines_append (by simp [feedless, own]), lines_append own, split,
      withoutReturn_append_of_isIndent spaces]
    rfl

/-! ### Carriage returns in front of line feeds -/

/-- A line may have got a carriage return behind it when one is put in front of every line feed. -/
theorem padded_lines_returned (text : Text) :
    List.Forall₂ (Padded []) (lines text) (lines (text.withLineEnds ['\r', '\n'])) := by
  have own : ∀ line : Text, Padded [] line line := fun line => ⟨[], rfl, by simp⟩
  induction text using lineInduction with
  | last line feedless =>
    rw [withLineEnds_of_notMem feedless]
    exact List.forall₂_same.2 fun line _ => own line
  | more line rest feedless ih =>
    have moved : (line ++ '\n' :: rest).withLineEnds ['\r', '\n'] =
        (line ++ ['\r']) ++ '\n' :: rest.withLineEnds ['\r', '\n'] := by
      rw [withLineEnds_line feedless]
      simp
    have whole : '\n' ∉ line ++ ['\r'] := by simp [feedless]
    rw [moved, lines_append whole, lines_append feedless, withoutReturn_append]
    refine .cons ?_ ih
    rcases eq_withoutReturn_append line with same | cut
    · exact same ▸ own line
    · exact ⟨['\r'], by decide, by rw [List.nil_append, ← cut]⟩

/-- Ways to write the lines of a text anew. -/
inductive WrittenAnew (text : Text) : Text → Prop where
  /-- Spaces and tabs are put at the start of the text and behind every line feed. -/
  | indented {pad : Text} (spaces : ∀ sign ∈ pad, sign = ' ' ∨ sign = '\t') :
      WrittenAnew text (pad ++ text.withLineEnds ('\n' :: pad))
  /-- A carriage return is put in front of every line feed. -/
  | returned : WrittenAnew text (text.withLineEnds ['\r', '\n'])

/-- A text that is written anew is unindented to the same. -/
theorem WrittenAnew.unindent_eq {text other : Text} (anew : WrittenAnew text other) :
    other.unindent = text.unindent := by
  cases anew with
  | @indented pad spaces =>
    have counts : ∀ sign ∈ pad, isIndent sign := fun sign listed =>
      isIndent_iff.2 (spaces sign listed)
    obtain ⟨extra, blank, split⟩ := exists_lines_indented counts text
    refine unindent_of_padded counts ?_ split blank
    exact List.forall₂_map_right_iff.2 (List.forall₂_same.2 fun line _ => ⟨[], rfl, by simp⟩)
  | returned =>
    have nothing : ∀ sign ∈ ([] : Text), isIndent sign := List.forall_mem_nil _
    exact unindent_of_padded nothing (padded_lines_returned text) (List.append_nil _).symm
      (List.forall_mem_nil _)

end Text

namespace Markdown

/-- A code sample is read by what its text is unindented to, and by nothing else. -/
theorem dispatch_code_congr (options : Options) {first second : Element}
    (one : first.name = "code".toList) (other : second.name = "code".toList)
    (same : first.deepText.unindent = second.deepText.unindent) :
    (defaultPool options).dispatch first = (defaultPool options).dispatch second := by
  have registered : (defaultPool options).renderers.get? "code".toList = some code := rfl
  rw [Pool.dispatch, Pool.dispatch, Pool.settle, Pool.settle, one, other, registered]
  simp only [code, same]
  rfl

/-- A code sample is shown the same however it is written. Let a text get the same spaces and tabs
at its start and behind every line feed, or a carriage return in front of every line feed. It is
unindented to the same, and a code sample of the text is declined or rendered to the same by the
default pool if it is given the other text as its only node. -/
theorem sample_of_writtenAnew {text other : Text} (anew : Text.WrittenAnew text other) :
    other.unindent = text.unindent ∧
    ∀ (options : Options) (sample : Element), sample.name = "code".toList →
      sample.deepText = text →
      (defaultPool options).dispatch { sample with content := .text other .nil } =
        (defaultPool options).dispatch sample := by
  refine ⟨anew.unindent_eq, fun options sample named holds => ?_⟩
  refine dispatch_code_congr options named named ?_
  have own : Element.deepText { sample with content := .text other .nil } = other :=
    List.append_nil other
  rw [own, holds, anew.unindent_eq]

/-- A sample of two nodes, with line ends of both kinds and none at its end. A tab and a space are
put in front of its lines, the blank ones among them, or a carriage return behind them. -/
theorem sample_of_writtenAnew_of_mixed_lines :
    let text : Text := "\r\n  if (x)\n\n\tgo();".toList
    let deeper : Text := "\t \r\n\t   if (x)\n\t \n\t \tgo();".toList
    let returned : Text := "\r\r\n  if (x)\r\n\r\n\tgo();".toList
    let sample : Element := ⟨"code".toList, .empty,
      .ofNodes [.text "\r\n  if (x)\n".toList, .text "\n\tgo();".toList]⟩
    let shown : Outcome := .rendered "\n```\n if (x)\n\ngo();\n```\n".toList
    sample.deepText = text ∧ (defaultPool {}).dispatch sample = shown ∧
      Text.WrittenAnew text deeper ∧ deeper.unindent = text.unindent ∧
      (defaultPool {}).dispatch { sample with content := .text deeper .nil } = shown ∧
      Text.WrittenAnew text returned ∧ returned.unindent = text.unindent ∧
      (defaultPool {}).dispatch { sample with content := .text returned .nil } = shown := by
  intro text deeper returned sample shown
  have holds : sample.deepText = text := rfl
  have own : (defaultPool {}).dispatch sample = shown := by decide
  have spaces : ∀ sign ∈ "\t ".toList, sign = ' ' ∨ sign = '\t' := by simp
  have moved : Text.WrittenAnew text deeper := .indented spaces
  have ended : Text.WrittenAnew text returned := .returned
  obtain ⟨sameMoved, shownMoved⟩ := sample_of_writtenAnew moved
  obtain ⟨sameEnded, shownEnded⟩ := sample_of_writtenAnew ended
  exact ⟨holds, own, moved, sameMoved, (shownMoved {} sample rfl holds).trans own,
    ended, sameEnded, (shownEnded {} sample rfl holds).trans own⟩

end Markdown

end ApiPages
