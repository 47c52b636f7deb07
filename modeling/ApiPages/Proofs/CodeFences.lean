import ApiPages.Proofs.Blocks
import ApiPages.Proofs.IndexAgreement
import ApiPages.Proofs.LineEnds
import ApiPages.Proofs.Unindenting

/-!
# Fences of code samples

A code sample is written between two fences, with a line end on either side. A block around it
trims what it holds, so such a line end is lost where nothing else is shown on its side, and what
the block writes there takes its place. A fence that stands at the start of a line makes a code
block; behind a caption, or in running text, it does not.

What is in front of the opening fence is decided by the innermost block that shows or writes
anything there: its caption, if the content begins on the line of the caption, or else what it shows
before the sample, if a summary continues that line. What is behind the closing fence is decided by
the outermost of the blocks around the sample up to the first that shows anything there: some blocks
put a space in front of the line end behind their content.
-/
namespace ApiPages

/-- A line separator is white space. -/
theorem Newline.isBlank_text (newline : Newline) : newline.text.isBlank := by
  cases newline <;> rfl

namespace Markdown

/-- The fenced block of a code sample, from fence to fence. -/
def codeBlock (newline : Text) (code : Element) : Text :=
  fence ++ newline ++ code.deepText.unindent.withLineEnds newline ++ newline ++ fence

/-- The fenced block of a code sample starts and ends with a sign. -/
theorem exists_codeBlock_eq (newline : Text) (code : Element) :
    ∃ middle, codeBlock newline code = '\x60' :: middle ++ ['\x60'] :=
  ⟨['\x60', '\x60'] ++ newline ++ code.deepText.unindent.withLineEnds newline ++ newline ++
    ['\x60', '\x60'], by simp [codeBlock, fence]⟩

variable (options : Options)

/-- A code sample is its fenced block between two line ends. -/
theorem render_code {code : Element} (named : code.name = "code".toList)
    (filled : ¬code.deepText.isBlank) :
    (defaultPool options).render code =
      options.newline.text ++ codeBlock options.newline.text code ++ options.newline.text := by
  have registered : (defaultPool options).renderers.get? code.name = some Markdown.code := by
    rw [named]
    rfl
  have lines : nonEmpty code.deepText.unindent = some code.deepText.unindent :=
    if_neg (Text.unindent_ne_nil filled)
  rw [render_eq_of_renderer registered, Markdown.code, lines]
  simp [codeBlock, Subject.newline, defaultPool]

/-- What is rendered in front of the fenced block of a sample inside blocks. -/
def textAhead : List Level → Text
  | [] => options.newline.text
  | level :: inner =>
    level.block.opening options.newline.text level.attributes ++
      Text.trimStart ((defaultPool options).mixed level.before ++ textAhead inner)

/-- What is rendered behind the fenced block of a sample inside blocks. -/
def textBehind : List Level → Text
  | [] => options.newline.text
  | level :: inner =>
    Text.trimEnd (textBehind inner ++ (defaultPool options).mixed level.after) ++
      level.block.closing options.newline.text

/-- A code sample inside blocks is rendered as its fenced block between two texts that do not depend
on the sample. -/
theorem render_enclose {code : Element} (named : code.name = "code".toList)
    (filled : ¬code.deepText.isBlank) (levels : List Level) :
    (defaultPool options).render (enclose levels code) =
      textAhead options levels ++ codeBlock options.newline.text code ++
        textBehind options levels := by
  obtain ⟨middle, fenced⟩ := exists_codeBlock_eq options.newline.text code
  have sign : Text.isSpace '\x60' = false := by decide
  induction levels with
  | nil => exact render_code options named filled
  | cons level inner ih =>
    have visible : ¬((defaultPool options).render (enclose inner code)).isBlank := by
      rw [ih, fenced]
      simp [Text.isBlank, sign]
    rw [enclose, List.foldr_cons, ← enclose, render_wrap options level visible, ih, fenced]
    have trimmed := Text.trim_append sign sign
      ((defaultPool options).mixed level.before ++ textAhead options inner) middle
      (textBehind options inner ++ (defaultPool options).mixed level.after)
    simp only [textAhead, textBehind, List.append_assoc] at trimmed ⊢
    rw [trimmed]
    simp only [List.append_assoc]

/-! ## The opening fence -/

/-- Blocks that write nothing in front of their content but line ends. -/
def uncaptioned : List Block := [.summary, .paragraph]

/-- Blocks that begin their content on the line of a caption. -/
def captioning : List Block := [.remarks, .returns, .value, .typeParameter, .exception]

/-- Nothing is shown in front of a sample inside these blocks: none of them has a caption or shows
anything before the way down. -/
def Unheaded (levels : List Level) : Prop :=
  ∀ level ∈ levels, level.block ∈ uncaptioned ∧ ((defaultPool options).mixed level.before).isBlank

/-- The outermost of the blocks is a summary. -/
def InSummary (levels : List Level) : Prop := levels.head?.map Level.block = some .summary

/-- What a block writes in front of its content is blank if the block has no caption. -/
theorem isBlank_opening_iff (newline : Newline) (attributes : Dict Text) (block : Block) :
    (block.opening newline.text attributes).isBlank ↔ block ∈ uncaptioned := by
  cases block with
  | summary => exact iff_of_true rfl (by decide)
  | paragraph => exact iff_of_true newline.isBlank_text (by decide)
  | remarks | returns | value | sample | typeParameter | exception =>
    exact iff_of_false (ne_true_of_eq_false rfl) (by decide)

/-- A caption ends its line unless the content begins on it. -/
theorem suffix_opening_iff (newline : Newline) (attributes : Dict Text) {block : Block}
    (captioned : block ∉ uncaptioned) :
    newline.text <:+ block.opening newline.text attributes ↔ block ∉ captioning := by
  have inLine : ∀ front back : Text, back.getLast? = some ' ' →
      ¬newline.text <:+ front ++ back := by
    intro front back spaced ended
    have last := Newline.getLast?_of_suffix ended
    rw [List.getLast?_append, spaced, Option.some_or] at last
    exact absurd last (by decide)
  cases block with
  | summary | paragraph => exact absurd (by decide) captioned
  | sample => exact iff_of_true (List.suffix_append _ _) (by decide)
  | remarks | returns | value => exact iff_of_false (inLine [] _ rfl) (by decide)
  | typeParameter | exception => exact iff_of_false (inLine _ ": ".toList rfl) (by decide)

/-- Nothing visible is rendered in front of the fenced block if nothing is shown there. -/
theorem isBlank_textAhead_iff (levels : List Level) :
    (textAhead options levels).isBlank ↔ Unheaded options levels := by
  induction levels with
  | nil => exact iff_of_true options.newline.isBlank_text (List.forall_mem_nil _)
  | cons level inner ih =>
    rw [textAhead, Text.isBlank_append, Text.isBlank_trimStart, Text.isBlank_append, Unheaded,
      List.forall_mem_cons, ← Unheaded, ← ih, ←
      isBlank_opening_iff options.newline level.attributes]
    simp only [Bool.and_eq_true, and_assoc]

/-- If nothing is shown in front of the fenced block, the outermost block decides what is rendered
there. -/
theorem textAhead_of_unheaded {levels : List Level} (unheaded : Unheaded options levels) :
    (InSummary levels → textAhead options levels = []) ∧
      (¬InSummary levels → textAhead options levels = options.newline.text) := by
  cases levels with
  | nil => exact ⟨(fun summary => nomatch summary), fun _ => rfl⟩
  | cons level inner =>
    obtain ⟨⟨bare, leads⟩, rest⟩ := List.forall_mem_cons.1 unheaded
    have blank : Text.isBlank
        ((defaultPool options).mixed level.before ++ textAhead options inner) := by
      rw [Text.isBlank_append, leads, (isBlank_textAhead_iff options inner).2 rest]
      rfl
    rw [textAhead, Text.trimStart_of_isBlank blank, List.append_nil, InSummary, List.head?_cons,
      Option.map_some, Option.some.injEq]
    rcases List.mem_pair.1 bare with summary | paragraph
    · rw [summary]
      exact ⟨fun _ => rfl, fun other => absurd rfl other⟩
    · rw [paragraph]
      exact ⟨(fun summary => nomatch summary), fun _ => rfl⟩

/-- What is rendered in front of the fenced block leaves its line open. -/
inductive OpeningCaught : List Level → Prop where
  /-- The block of a level begins its content on the line of its caption, and shows nothing else in
  front of the sample. -/
  | caption {level inner} (captioning : level.block ∈ captioning)
      (leads : ((defaultPool options).mixed level.before).isBlank)
      (unheaded : Unheaded options inner) : OpeningCaught (level :: inner)
  /-- The block of a level shows something that ends no line, and a summary that shows nothing in
  front of the sample continues that line. -/
  | text {level inner} (shown : ¬((defaultPool options).mixed level.before).isBlank)
      (opened : ¬options.newline.text <:+ (defaultPool options).mixed level.before)
      (summary : InSummary inner) (unheaded : Unheaded options inner) :
      OpeningCaught (level :: inner)
  /-- The fence is behind something in its line further inside already. -/
  | inside {level inner} (caught : OpeningCaught inner) : OpeningCaught (level :: inner)

variable {options}

/-- A fence is behind something in its line only if something is shown in front of it. -/
theorem OpeningCaught.not_unheaded {levels : List Level} (caught : OpeningCaught options levels) :
    ¬Unheaded options levels := by
  intro unheaded
  induction caught with
  | caption captioned _ _ =>
    have bare := (unheaded _ List.mem_cons_self).1
    revert captioned bare
    generalize Level.block _ = block
    revert block
    decide
  | text shown _ _ _ => exact shown (unheaded _ List.mem_cons_self).2
  | inside _ ih => exact ih (List.forall_mem_cons.1 unheaded).2

/-- A block around a fence behind something in its line changes nothing about that, nor does a block
around any other fence that something is shown in front of. -/
theorem openingCaught_cons_of_headed {level : Level} {inner : List Level}
    (headed : ¬Unheaded options inner) :
    OpeningCaught options (level :: inner) ↔ OpeningCaught options inner := by
  refine ⟨fun caught => ?_, .inside⟩
  cases caught with
  | caption _ _ unheaded | text _ _ _ unheaded => exact absurd unheaded headed
  | inside caught => exact caught

/-- Where nothing else is shown in front of a fence, it is the caption of a block that catches
it. -/
theorem openingCaught_cons_of_leads {level : Level} {inner : List Level}
    (leads : ((defaultPool options).mixed level.before).isBlank)
    (unheaded : Unheaded options inner) :
    OpeningCaught options (level :: inner) ↔ level.block ∈ captioning := by
  refine ⟨fun caught => ?_, fun captioned => .caption captioned leads unheaded⟩
  cases caught with
  | caption captioned _ _ => exact captioned
  | text shown _ _ _ => exact absurd leads shown
  | inside caught => exact absurd unheaded caught.not_unheaded

/-- Where a block shows something else in front of a fence, it is a summary continuing its line that
catches the fence. -/
theorem openingCaught_cons_of_shown {level : Level} {inner : List Level}
    (shown : ¬((defaultPool options).mixed level.before).isBlank)
    (unheaded : Unheaded options inner) :
    OpeningCaught options (level :: inner) ↔
      InSummary inner ∧ ¬options.newline.text <:+ (defaultPool options).mixed level.before := by
  refine ⟨fun caught => ?_, fun ⟨summary, opened⟩ => .text shown opened summary unheaded⟩
  cases caught with
  | caption _ leads _ => exact absurd leads shown
  | text _ opened summary _ => exact ⟨summary, opened⟩
  | inside caught => exact absurd unheaded caught.not_unheaded

/-- When something is shown in front of a sample, its opening fence starts a line unless it is
caught in one. -/
theorem suffix_textAhead_iff {levels : List Level} (headed : ¬Unheaded options levels) :
    options.newline.text <:+ textAhead options levels ↔ ¬OpeningCaught options levels := by
  have white := options.newline.isBlank_text
  induction levels with
  | nil => exact absurd (List.forall_mem_nil _) headed
  | cons level inner ih =>
    -- Trimming takes nothing from the end of a text that anything is shown in.
    have kept : ∀ text : Text, ¬text.isBlank →
        (options.newline.text <:+ level.block.opening options.newline.text level.attributes ++
            text.trimStart ↔ options.newline.text <:+ text) := fun text filled =>
      (Text.suffix_append_iff white (by rwa [Text.isBlank_trimStart]) _).trans
        (Text.suffix_trimStart_iff white filled)
    rw [textAhead]
    by_cases unheaded : Unheaded options inner
    case neg =>
      have filled : ¬(textAhead options inner).isBlank := fun blank =>
        unheaded ((isBlank_textAhead_iff options inner).1 blank)
      rw [kept _ (by simp [Text.isBlank_append, filled]), Text.suffix_append_iff white filled,
        openingCaught_cons_of_headed unheaded]
      exact ih unheaded
    by_cases leads : ((defaultPool options).mixed level.before).isBlank
    case pos =>
      have blank : Text.isBlank
          ((defaultPool options).mixed level.before ++ textAhead options inner) := by
        rw [Text.isBlank_append, leads, (isBlank_textAhead_iff options inner).2 unheaded]
        rfl
      have captioned : level.block ∉ uncaptioned := fun bare =>
        headed (List.forall_mem_cons.2 ⟨⟨bare, leads⟩, unheaded⟩)
      rw [Text.trimStart_of_isBlank blank, List.append_nil, suffix_opening_iff _ _ captioned,
        openingCaught_cons_of_leads leads unheaded]
    case neg =>
      obtain ⟨bare, ended⟩ := textAhead_of_unheaded options unheaded
      rw [kept _ (by simp [Text.isBlank_append, leads]), openingCaught_cons_of_shown leads unheaded]
      by_cases summary : InSummary inner
      · rw [bare summary, List.append_nil]
        simp [summary]
      · rw [ended summary]
        simp [summary]

/-! ## The closing fence -/

/-- Blocks that put a space in front of the line end behind their content. -/
def padding : List Block := [.returns, .value, .typeParameter, .exception]

/-- Nothing is shown behind a sample inside these blocks: none of them shows anything after the way
down. -/
def Unfollowed (options : Options) (levels : List Level) : Prop :=
  ∀ level ∈ levels, ((defaultPool options).mixed level.after).isBlank

/-- What is rendered behind the fenced block begins with a space. -/
inductive ClosingCaught (options : Options) : List Level → Prop where
  /-- The block of a level puts a space in front of its line end, and nothing is shown behind the
  sample. -/
  | space {level inner} (padded : level.block ∈ padding)
      (unfollowed : Unfollowed options (level :: inner)) : ClosingCaught options (level :: inner)
  /-- Something is shown behind the sample, so what is rendered further inside is kept, and it
  begins with a space already. -/
  | inside {level inner} (followed : ¬Unfollowed options (level :: inner))
      (caught : ClosingCaught options inner) : ClosingCaught options (level :: inner)

/-- What a block writes behind its content is white space. -/
theorem isBlank_closing (newline : Newline) (block : Block) :
    (block.closing newline.text).isBlank := by
  cases newline <;> cases block <;> decide

/-- What a block writes behind its content begins with a space or with a line end. -/
theorem closing_starts (newline : Newline) (block : Block) :
    (block ∈ padding → [' '] <+: block.closing newline.text) ∧
      (block ∉ padding → newline.text <+: block.closing newline.text) := by
  cases newline <;> cases block <;> decide

/-- Nothing visible is rendered behind the fenced block if nothing is shown there. -/
theorem isBlank_textBehind_iff (levels : List Level) :
    (textBehind options levels).isBlank ↔ Unfollowed options levels := by
  induction levels with
  | nil => exact iff_of_true options.newline.isBlank_text (List.forall_mem_nil _)
  | cons level inner ih =>
    rw [textBehind, Text.isBlank_append, Text.isBlank_trimEnd, Text.isBlank_append,
      isBlank_closing, Bool.and_true, Bool.and_eq_true, ih]
    exact ⟨fun both => List.forall_mem_cons.2 both.symm,
      fun shown => (List.forall_mem_cons.1 shown).symm⟩

/-- Where nothing is shown behind a fence, the outermost block decides whether it is caught. -/
theorem closingCaught_cons_of_unfollowed {level : Level} {inner : List Level}
    (unfollowed : Unfollowed options (level :: inner)) :
    ClosingCaught options (level :: inner) ↔ level.block ∈ padding := by
  refine ⟨fun caught => ?_, fun padded => .space padded unfollowed⟩
  cases caught with
  | space padded _ => exact padded
  | inside followed _ => exact absurd unfollowed followed

/-- Where something is shown behind a fence, the outermost block changes nothing. -/
theorem closingCaught_cons_of_followed {level : Level} {inner : List Level}
    (followed : ¬Unfollowed options (level :: inner)) :
    ClosingCaught options (level :: inner) ↔ ClosingCaught options inner := by
  refine ⟨fun caught => ?_, .inside followed⟩
  cases caught with
  | space _ unfollowed => exact absurd unfollowed followed
  | inside _ caught => exact caught

/-- What is rendered behind the fenced block begins with a space if the closing fence is caught, and
with a line end if not. -/
theorem textBehind_starts (levels : List Level) :
    (ClosingCaught options levels → [' '] <+: textBehind options levels) ∧
      (¬ClosingCaught options levels → options.newline.text <+: textBehind options levels) := by
  induction levels with
  | nil => exact ⟨(fun caught => nomatch caught), fun _ => List.prefix_rfl⟩
  | cons level inner ih =>
    rw [textBehind]
    by_cases unfollowed : Unfollowed options (level :: inner)
    case pos =>
      obtain ⟨trails, rest⟩ := List.forall_mem_cons.1 unfollowed
      have blank : Text.isBlank
          (textBehind options inner ++ (defaultPool options).mixed level.after) := by
        rw [Text.isBlank_append, trails, (isBlank_textBehind_iff inner).2 rest]
        rfl
      rw [Text.trimEnd_of_isBlank blank, List.nil_append,
        closingCaught_cons_of_unfollowed unfollowed]
      exact closing_starts options.newline level.block
    case neg =>
      have filled : ¬Text.isBlank
          (textBehind options inner ++ (defaultPool options).mixed level.after) := by
        intro blank
        rw [Text.isBlank_append, Bool.and_eq_true, isBlank_textBehind_iff] at blank
        exact unfollowed (List.forall_mem_cons.2 blank.symm)
      -- Trimming takes nothing from the start of a text that anything is shown in.
      have kept : ∀ start : Text, start.isBlank → start <+: textBehind options inner →
          start <+: Text.trimEnd (textBehind options inner ++
            (defaultPool options).mixed level.after) ++
              level.block.closing options.newline.text := fun start white begins =>
        ((Text.prefix_trimEnd_iff white filled).2 (begins.trans (List.prefix_append _ _))).trans
          (List.prefix_append _ _)
      rw [closingCaught_cons_of_followed unfollowed]
      exact ⟨fun caught => kept _ rfl (ih.1 caught),
        fun free => kept _ options.newline.isBlank_text (ih.2 free)⟩

/-- A line follows the fenced block unless the closing fence is caught. -/
theorem prefix_textBehind_iff (levels : List Level) (rest : Text) :
    options.newline.text <+: textBehind options levels ++ rest ↔ ¬ClosingCaught options levels := by
  obtain ⟨spaced, ended⟩ := textBehind_starts levels
  by_cases caught : ClosingCaught options levels
  · refine iff_of_false (fun started => ?_) (not_not.2 caught)
    obtain ⟨others, split⟩ := spaced caught
    rw [← split] at started
    revert started
    cases options.newline <;> simp [Newline.text]
  · exact iff_of_true ((ended caught).trans (List.prefix_append _ _)) caught

/-! ## Samples inside members -/

/-- A section is its body between two texts, of which the first ends a line. -/
theorem Heading.exists_part_eq (heading : Heading) (newline : Text) :
    ∃ front back, ∀ body, heading.part newline body = front ++ newline ++ body ++ back := by
  by_cases type : heading.kind = .type
  · refine ⟨"---".toList ++ newline ++ "#### Type: ".toList ++ ("<a name=\"".toList ++
      heading.anchor ++ "\"></a>".toList ++ heading.name) ++ newline, newline ++ newline,
      fun body => ?_⟩
    rw [Heading.part, type, ← List.append_assoc]
    rfl
  · refine ⟨"#### ".toList ++ heading.kind.label ++ ": ".toList ++ ("<a name=\"".toList ++
      heading.anchor ++ "\"></a>".toList ++ heading.name) ++ newline ++ newline, newline,
      fun body => ?_⟩
    rw [Heading.part, write_of_ne_type _ type]

/-- The opening fence of a sample inside a member is behind something in its line: that is so inside
the blocks around it, or else a summary that shows nothing in front of the sample continues the line
of an inline element of the member. -/
def MemberCatchesOpening (options : Options) (before : Content) (levels : List Level) : Prop :=
  OpeningCaught options levels ∨ Unheaded options levels ∧ InSummary levels ∧
    ∃ child, lastRendered? options before.elements = some child ∧ child.name ∈ inlineNames

/-- Where the opening fence of a sample starts a line of the member. -/
theorem suffix_member_iff (options : Options) (front : Text) (before : Content)
    (levels : List Level) :
    options.newline.text <:+ front ++ options.newline.text ++
        before.elements.flatMap (defaultPool options).render ++ textAhead options levels ↔
      ¬MemberCatchesOpening options before levels := by
  by_cases unheaded : Unheaded options levels
  · obtain ⟨bare, ended⟩ := textAhead_of_unheaded options unheaded
    have inside : ¬OpeningCaught options levels := fun caught => caught.not_unheaded unheaded
    by_cases summary : InSummary levels
    · rw [bare summary, List.append_nil, suffix_children_iff, MemberCatchesOpening,
        or_iff_right inside]
      simp [unheaded, summary]
    · rw [ended summary]
      refine iff_of_true (List.suffix_append _ _) fun caught => ?_
      exact caught.elim inside fun continued => summary continued.2.1
  · have filled : ¬(textAhead options levels).isBlank := fun blank =>
      unheaded ((isBlank_textAhead_iff options levels).1 blank)
    rw [Text.suffix_append_iff options.newline.isBlank_text filled, suffix_textAhead_iff unheaded,
      MemberCatchesOpening, or_iff_left fun continued => unheaded continued.1]

/-- When a code sample stays a code block. A member that states its name, a known kind and its
namespace holds a sample, directly or inside nested blocks. Its section shows the fenced block of
the sample between two texts that do not depend on the sample. The opening fence starts a line
unless it is caught, and the closing fence, which starts a line, ends one unless it is caught. -/
theorem code_block_stands_iff (options : Options) (attributes : Dict Text) {name space : Text}
    (kind : MemberKind) (named : attributes.get? Names.name = some name)
    (typed : attributes.get? Names.memberType = some kind.code)
    (placed : attributes.get? Names.space = some space) (before after : Content)
    (levels : List Level) :
    let newline := options.newline.text
    ∃ ahead behind : Text,
      (∀ code : Element, code.name = "code".toList → ¬code.deepText.isBlank →
        (defaultPool options).render
            ⟨Names.member, attributes, before.around (enclose levels code) after⟩ =
          ahead ++ codeBlock newline code ++ behind ∧
        newline ++ fence <:+ codeBlock newline code) ∧
      (newline <:+ ahead ↔ ¬MemberCatchesOpening options before levels) ∧
      (newline <+: behind ↔ ¬ClosingCaught options levels) := by
  intro newline
  let heading : Heading := ⟨kind, name, anchor space name⟩
  let pool := defaultPool options
  obtain ⟨front, back, written⟩ := heading.exists_part_eq newline
  refine ⟨front ++ newline ++ before.elements.flatMap pool.render ++ textAhead options levels,
    textBehind options levels ++ (after.elements.flatMap pool.render ++ back), ?_,
    suffix_member_iff options front before levels, prefix_textBehind_iff levels _⟩
  intro code tagged filled
  have known : MemberKind.ofCode? kind.code = some kind := MemberKind.ofCode?_eq_some_iff.2 rfl
  have headed : Heading.ofMember?
      ⟨Names.member, attributes, before.around (enclose levels code) after⟩ = some heading := by
    simp only [Heading.ofMember?, Element.attribute?, named, typed, placed, known, bind,
      Option.bind_some]
    rfl
  have children : pool.renderChildren
      ⟨Names.member, attributes, before.around (enclose levels code) after⟩ =
        before.elements.flatMap pool.render ++ (textAhead options levels ++
          codeBlock newline code ++ textBehind options levels ++
            after.elements.flatMap pool.render) := by
    rw [renderChildren_eq, Element.children, Content.elements_around, List.flatMap_append,
      List.flatMap_cons, render_enclose options tagged filled]
  refine ⟨?_, _, (List.append_assoc _ newline fence).symm⟩
  rw [Heading.render_member options rfl, headed, Option.map_some, Option.getD_some, written,
    children]
  simp only [List.append_assoc]

/-- A line of code as a sample. -/
def sampleOf (line : Text) : Element := ⟨"code".toList, .empty, .ofNodes [.text line]⟩

/-- A paragraph of a returned value, behind and in front of other text. -/
def paragraphOfReturns : List Level :=
  [⟨.returns, .empty, trivial, .ofNodes [.text "The size, as in".toList],
      .ofNodes [.text "of a circle.".toList]⟩,
    ⟨.paragraph, .empty, trivial, .nil, .nil⟩]

/-- Inside a returned value, a sample with other text on either side of it stays a code block. -/
theorem code_block_stands_iff_of_returns :
    let sample := sampleOf "  Scale(2);".toList
    ∃ ahead behind : Text,
      (defaultPool ⟨.crlf, false⟩).render ⟨Names.member, .ofList [(Names.name, "Scale".toList),
          (Names.memberType, ['M']), (Names.space, "Shapes".toList)],
          Content.nil.around (enclose paragraphOfReturns sample) .nil⟩ =
        ahead ++ codeBlock "\r\n".toList sample ++ behind ∧
      "\r\n".toList <:+ ahead ∧ "\r\n".toList <+: behind := by
  intro sample
  obtain ⟨ahead, behind, shown, opening, closing⟩ := code_block_stands_iff ⟨.crlf, false⟩
    (.ofList [(Names.name, "Scale".toList), (Names.memberType, ['M']),
      (Names.space, "Shapes".toList)]) .method rfl rfl rfl .nil .nil paragraphOfReturns
  have opens : ¬MemberCatchesOpening ⟨.crlf, false⟩ .nil paragraphOfReturns := by
    rintro (outer | ⟨-, summary, -⟩)
    · cases outer with
      | caption _ leads _ => exact absurd leads (by decide)
      | text _ _ summary _ => exact nomatch summary
      | inside inner =>
        cases inner with
        | caption begins _ _ => exact absurd begins (by decide)
        | text shown _ _ _ => exact shown rfl
        | inside none => cases none
    · exact nomatch summary
  have closes : ¬ClosingCaught ⟨.crlf, false⟩ paragraphOfReturns := by
    intro outer
    cases outer with
    | space _ unfollowed => exact absurd (unfollowed _ List.mem_cons_self) (by decide)
    | inside _ inner =>
      cases inner with
      | space padded _ => exact absurd padded (by decide)
      | inside _ none => cases none
  exact ⟨ahead, behind, (shown sample rfl (by decide)).1, opening.2 opens, closing.2 closes⟩

/-- Behind the caption of remarks, a sample is no code block. -/
theorem code_block_caught_of_remarks :
    let rendered := (defaultPool ⟨.lf, false⟩).render ⟨Names.member, .ofList [(Names.name, ['X']),
      (Names.memberType, ['T']), (Names.space, ['A'])], .ofNodes [.element
        ⟨"remarks".toList, .empty, .ofNodes [.element (sampleOf ['x'])]⟩]⟩
    rendered =
      "---\n#### Type: <a name=\"a.x\"></a>X\n\n**Remarks:** ```\nx\n```\n\n\n\n".toList ∧
    rendered.holds "\n```\nx".toList = false := by
  intro rendered
  have shown : rendered =
      "---\n#### Type: <a name=\"a.x\"></a>X\n\n**Remarks:** ```\nx\n```\n\n\n\n".toList := rfl
  refine ⟨shown, ?_⟩
  rw [shown]
  rfl

end Markdown

end ApiPages
