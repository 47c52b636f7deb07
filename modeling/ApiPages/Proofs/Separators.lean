import ApiPages.Proofs.IndexAgreement
import ApiPages.Proofs.LineEnds
import ApiPages.Proofs.LineFeeds
import ApiPages.Proofs.PageAgreement
import ApiPages.Proofs.Reading

/-!
# Pages under both line separators

What an element shows as it is written may bring line feeds of its own into a page. Where it does
not, every line feed of a page is a line separator, and the page under the longer separator is the
page under the shorter one with a carriage return in front of every line feed. The renderers agree
in this from the inside out: a body is trimmed, found empty or written between captions in the same
way under both separators.
-/
namespace ApiPages

/-- The attributes whose values are shown as they are written. -/
def Names.shownVerbatim : List Text :=
  ["name".toList, "namespace".toList, "cref".toList, "href".toList, "langword".toList]

/-- All that is shown of an element as it is written stays on one line. -/
structure Element.OnLine (element : Element) : Prop where
  /-- The values of the attributes that are shown. -/
  attributes : ∀ key ∈ Names.shownVerbatim, ∀ value ∈ element.attribute? key, '\n' ∉ value
  /-- The own text of a parameter. -/
  ownText : element.name = "param".toList → '\n' ∉ element.ownText
  /-- All text of what names an assembly. -/
  assemblyName : element.name = "assembly".toList →
    ∀ child ∈ element.childrenNamed "name".toList, '\n' ∉ child.deepText

instance (element : Element) : Decidable element.OnLine :=
  decidable_of_iff
    ((∀ key ∈ Names.shownVerbatim, ∀ value ∈ element.attribute? key, '\n' ∉ value) ∧
      (element.name = "param".toList → '\n' ∉ element.ownText) ∧
      (element.name = "assembly".toList →
        ∀ child ∈ element.childrenNamed "name".toList, '\n' ∉ child.deepText))
    ⟨fun ⟨attributes, own, assembly⟩ => ⟨attributes, own, assembly⟩,
      fun onLine => ⟨onLine.attributes, onLine.ownText, onLine.assemblyName⟩⟩

/-- The outcome whose text has a carriage return in front of every line feed. -/
def Outcome.withReturns : Outcome → Outcome
  | unregistered => unregistered
  | declined => declined
  | rendered written => rendered written.withReturns

/-- The part that is a text node still, or an element with the other line separator. -/
def Part.withReturns : Part → Part
  | text own => text own
  | element outcome => element outcome.withReturns

/-- What an outcome shows differs in its separators only. -/
theorem Outcome.text_withReturns (outcome : Outcome) :
    outcome.withReturns.text = outcome.text.withReturns := by
  cases outcome <;> rfl

/-- A renderer that gives a text under one separator gives one under the other. -/
theorem Outcome.ofResult_withReturns (result : Option Text) :
    ofResult (result.map Text.withReturns) = (ofResult result).withReturns := by
  cases result with
  | none => rfl
  | some written =>
    cases written with
    | nil => rfl
    | cons head rest =>
      have filled : Text.withReturns (head :: rest) ≠ [] :=
        fun empty => absurd (Text.withReturns_eq_nil_iff.1 empty) (by simp)
      obtain ⟨first, others, start⟩ := List.exists_cons_of_ne_nil filled
      rw [Option.map_some, start, ofResult, ofResult, withReturns, start]

/-- Rendered elements one after the other differ in their separators only. -/
theorem Part.joinElements_withReturns (parts : List Part) :
    joinElements (parts.map withReturns) = (joinElements parts).withReturns := by
  induction parts with
  | nil => rfl
  | cons head rest ih =>
    cases head with
    | text own => exact ih
    | element outcome =>
      change outcome.withReturns.text ++ joinElements (rest.map withReturns) =
        (outcome.text ++ joinElements rest).withReturns
      rw [ih, Outcome.text_withReturns, Text.withReturns_append]

/-- Collapsed texts hold no line feeds, so only the elements in mixed content differ. -/
theorem Part.joinMixed_withReturns (parts : List Part) :
    joinMixed (parts.map withReturns) = (joinMixed parts).withReturns := by
  induction parts with
  | nil => rfl
  | cons head rest ih =>
    cases head with
    | text own =>
      change own.collapse ++ joinMixed (rest.map withReturns) =
        (own.collapse ++ joinMixed rest).withReturns
      rw [ih, Text.withReturns_append, Text.withReturns_of_notMem (Text.notMem_collapse own)]
    | element outcome =>
      change outcome.withReturns.text ++ joinMixed (rest.map withReturns) =
        (outcome.text ++ joinMixed rest).withReturns
      rw [ih, Outcome.text_withReturns, Text.withReturns_append]

namespace Markdown

open Text

/-- The same element under both line separators. -/
structure Subject.Separated (short long : Subject) : Prop where
  /-- The element is the same. -/
  element : long.element = short.element
  /-- All that it shows as it is written stays on one line. -/
  onLine : short.element.OnLine
  /-- The elements inside are rendered to the same but for the separators. -/
  children : long.children = short.children.withReturns
  /-- The mixed content is the same but for the separators. -/
  mixed : long.mixed = short.mixed.withReturns
  /-- The first is written with the shorter separator. -/
  feed : short.newline = ['\n']
  /-- The second is written with the longer one. -/
  returned : long.newline = ['\r', '\n']

namespace Subject.Separated

variable {short long : Subject} (separated : Subject.Separated short long)
include separated

/-- The separators themselves differ by a carriage return. -/
theorem newline_eq : long.newline = short.newline.withReturns := by
  rw [separated.feed, separated.returned]
  rfl

/-- The attributes are the same. -/
theorem attribute?_eq (key : Text) : long.attribute? key = short.attribute? key := by
  rw [Subject.attribute?, Subject.attribute?, separated.element]

/-- The bodies differ in their separators only. -/
theorem body_eq : long.body = short.body.withReturns := by
  rw [Subject.body, Subject.body, separated.mixed, trim_withReturns]

/-- What is shown as it is written holds no line feed. -/
theorem notMem_attribute {key value : Text} (shown : key ∈ Names.shownVerbatim)
    (found : short.attribute? key = some value) : '\n' ∉ value :=
  separated.onLine.attributes key shown value found

end Subject.Separated

/-- A renderer that writes the same under both separators, but for the separators, where it is given
an element of some name. -/
def SeparatesAlike (name : Text) (renderer : Renderer) : Prop :=
  ∀ short long : Subject, short.element.name = name → Subject.Separated short long →
    renderer long = (renderer short).map withReturns

/-- A text is empty under both separators or under neither. -/
theorem nonEmpty_withReturns (text : Text) :
    nonEmpty text.withReturns = (nonEmpty text).map withReturns := by
  by_cases empty : text = []
  · rw [empty]
    rfl
  · rw [nonEmpty, nonEmpty, if_neg empty, if_neg (mt withReturns_eq_nil_iff.1 empty)]
    rfl

/-- A captioned line is the same but for the separators in its body and at its end. -/
theorem captioned_withReturns {caption : Text} (line : '\n' ∉ caption) (body newline : Text) :
    (captioned caption body newline).withReturns =
      captioned caption body.withReturns newline.withReturns := by
  have opening : '\n' ∉ '\t' :: caption := by simpa using line
  have colon : '\n' ∉ ": ".toList := by decide
  have space : '\n' ∉ [' '] := by decide
  have written : ∀ body newline : Text, captioned caption body newline =
      '\t' :: caption ++ ": ".toList ++ body ++ [' '] ++ newline := by
    intro body newline
    simp [captioned]
  simp only [written, withReturns_append, withReturns_of_notMem opening,
    withReturns_of_notMem colon, withReturns_of_notMem space]

/-- A span of a text on one line holds no line feed. -/
theorem notMem_span {text : Text} (line : '\n' ∉ text) : '\n' ∉ span text := by
  simpa [span] using line

/-- The label of an element is collapsed text, which holds no line feed. -/
theorem notMem_label (element : Element) : '\n' ∉ label element := fun feed =>
  notMem_collapse _ (trim_subset _ feed)

/-- A reference stays on one line, for it shows targets, keywords and collapsed text only. -/
theorem notMem_reference {subject : Subject} {written : Text} (onLine : subject.element.OnLine)
    (shown : reference subject = some written) : '\n' ∉ written := by
  have own := notMem_label subject.element
  rw [reference] at shown
  split at shown
  · rename_i found
    have line := onLine.attributes address (by decide) _ found
    obtain rfl := Option.some.inj shown
    split <;> simp [line, own]
  · rename_i found
    have line := onLine.attributes keyword (by decide) _ found
    obtain rfl := Option.some.inj shown
    exact notMem_span line
  · rename_i found
    have line := onLine.attributes Names.target (by decide) _ found
    obtain rfl := Option.some.inj shown
    apply notMem_span
    split
    · exact notMem_shortReference line
    · exact own
  · cases shown

/-- A section is the same but for the separators around its title and in its body. -/
theorem write_withReturns (kind : MemberKind) {title : Text} (line : '\n' ∉ title)
    (body newline : Text) :
    (Section.write ⟨title, body⟩ kind newline).withReturns =
      Section.write ⟨title, body.withReturns⟩ kind newline.withReturns := by
  have labelled : '\n' ∉ kind.label := by cases kind <;> decide
  by_cases type : kind = .type
  · have written : ∀ body newline, Section.write ⟨title, body⟩ .type newline =
        "---".toList ++ newline ++ "#### Type: ".toList ++ title ++ newline ++ newline ++ body ++
          newline ++ newline := fun _ _ => rfl
    have rule : '\n' ∉ "---".toList := by decide
    have heading : '\n' ∉ "#### Type: ".toList := by decide
    rw [type, written, written]
    simp only [withReturns_append, withReturns_of_notMem line, withReturns_of_notMem rule,
      withReturns_of_notMem heading]
  · have marks : '\n' ∉ "#### ".toList := by decide
    have colon : '\n' ∉ ": ".toList := by decide
    rw [write_of_ne_type _ type, write_of_ne_type _ type]
    simp only [withReturns_append, withReturns_of_notMem line, withReturns_of_notMem labelled,
      withReturns_of_notMem marks, withReturns_of_notMem colon]

/-- What a heading shows of a member stays on one line if the member does. -/
theorem Heading.notMem_of_ofMember? {found : Element} {heading : Heading} (onLine : found.OnLine)
    (shown : Heading.ofMember? found = some heading) :
    '\n' ∉ heading.name ∧ '\n' ∉ heading.anchor := by
  obtain ⟨named, -, space, placed, anchored⟩ := Heading.shows_of_ofMember? shown
  have name := onLine.attributes _ (by decide) _ named
  have spaceLine := onLine.attributes _ (by decide) _ placed
  refine ⟨name, ?_⟩
  rw [anchored]
  exact notMem_lowercase (by simp [name, spaceLine])

/-- The section under a heading on one line is the same but for the separators. -/
theorem Heading.part_withReturns {heading : Heading} (named : '\n' ∉ heading.name)
    (anchored : '\n' ∉ heading.anchor) (newline body : Text) :
    (heading.part newline body).withReturns =
      heading.part newline.withReturns body.withReturns := by
  have opening : '\n' ∉ "<a name=\"".toList := by decide
  have closing : '\n' ∉ "\"></a>".toList := by decide
  exact write_withReturns heading.kind (by simp only [List.mem_append, opening, anchored, closing,
    named, or_self, not_false_eq_true]) body newline

namespace Subject.Separated

variable {short long : Subject} (separated : Subject.Separated short long)
include separated

/-- A body that is not empty is shown alike if what is written around it is. -/
theorem shownBody (write : Text → Text → Text)
    (alike : ∀ body newline, write body.withReturns newline.withReturns =
      (write body newline).withReturns) :
    ((nonEmpty long.body).bind fun body => some (write body long.newline)) =
      ((nonEmpty short.body).bind fun body => some (write body short.newline)).map
        withReturns := by
  rw [separated.body_eq, separated.newline_eq, nonEmpty_withReturns]
  cases nonEmpty short.body with
  | none => rfl
  | some body => exact congrArg some (alike body short.newline)

/-- A body under a caption on one line is shown alike. -/
theorem captionedBody {caption : Text} (line : '\n' ∉ caption) :
    some (captioned caption long.body long.newline) =
      (some (captioned caption short.body short.newline)).map withReturns := by
  rw [separated.body_eq, separated.newline_eq, Option.map_some, captioned_withReturns line]

/-- A body is shown alike under a caption that is read from an attribute. -/
theorem captionedBodyOf {key : Text} (shown : key ∈ Names.shownVerbatim) {caption : Text → Text}
    (line : ∀ value, '\n' ∉ value → '\n' ∉ caption value) :
    ((long.attribute? key).bind fun value =>
        some (captioned (caption value) long.body long.newline)) =
      ((short.attribute? key).bind fun value =>
        some (captioned (caption value) short.body short.newline)).map withReturns := by
  rw [separated.attribute?_eq]
  cases found : short.attribute? key with
  | none => rfl
  | some value =>
    exact separated.captionedBody (line value (separated.notMem_attribute shown found))

/-- The section of a member is the same but for the separators. -/
theorem member_eq : member long = (member short).map withReturns := by
  rw [Heading.member_eq, Heading.member_eq, separated.element, separated.newline_eq,
    separated.children]
  cases shown : Heading.ofMember? short.element with
  | none => rfl
  | some heading =>
    obtain ⟨named, anchored⟩ := Heading.notMem_of_ofMember? separated.onLine shown
    exact congrArg some (Heading.part_withReturns named anchored _ _).symm

/-- The line of a parameter, which shows its own text as it is, is the same but for the
separators. -/
theorem parameter_eq (tagged : short.element.name = "param".toList) :
    parameter long = (parameter short).map withReturns := by
  simp only [parameter, bind, separated.attribute?_eq, separated.element, separated.children,
    separated.newline_eq]
  cases named : short.attribute? Names.name with
  | none => rfl
  | some name =>
    have caption : '\n' ∉ "Parameter ".toList ++ name := by
      simpa using separated.notMem_attribute (by decide) named
    have own := withReturns_of_notMem (separated.onLine.ownText tagged)
    simp only [Option.bind_some, Option.map_some, captioned_withReturns caption,
      withReturns_append, own]

/-- The line of an assembly is the same but for the separators. -/
theorem assembly_eq (tagged : short.element.name = Names.assembly) :
    assembly long = (assembly short).map withReturns := by
  simp only [assembly, bind, separated.element, separated.newline_eq]
  cases found : (short.element.childrenNamed Names.name).head? with
  | none => rfl
  | some child =>
    have line := separated.onLine.assemblyName tagged child (List.mem_of_head? found)
    have trimmed : '\n' ∉ child.deepText.trim := fun feed => line (trim_subset _ feed)
    have mark : '\n' ∉ "# ".toList := by decide
    simp only [Option.bind_some]
    by_cases empty : child.deepText.trim = []
    · simp only [nonEmpty, if_pos empty, Option.bind_none, Option.map_none]
    · simp only [nonEmpty, if_neg empty, Option.bind_some, Option.map_some, withReturns_append,
        withReturns_of_notMem mark, withReturns_of_notMem trimmed]

/-- A sample, whose lines are ended anew, is the same but for the separators. -/
theorem code_eq : code long = (code short).map withReturns := by
  have fenced : '\n' ∉ fence := by decide
  simp only [code, bind, separated.element, separated.newline_eq]
  cases nonEmpty short.element.deepText.unindent with
  | none => rfl
  | some lines =>
    have own : lines.withLineEnds short.newline.withReturns =
        (lines.withLineEnds short.newline).withReturns := by
      rw [separated.feed, withLineEnds_feed]
      rfl
    simp only [Option.bind_some, Option.map_some, withReturns_append,
      withReturns_of_notMem fenced, own]

/-- Code inside a line has no separators. -/
theorem inlineCode_eq : inlineCode long = (inlineCode short).map withReturns := by
  simp only [inlineCode, separated.element, nonEmpty]
  split
  · rfl
  · simp only [Option.map_some, withReturns_of_notMem (notMem_span (notMem_label _))]

/-- The name of a parameter has no separators. -/
theorem nameReference_eq : nameReference long = (nameReference short).map withReturns := by
  simp only [nameReference, separated.attribute?_eq]
  cases named : short.attribute? Names.name with
  | none => rfl
  | some name =>
    have line := separated.notMem_attribute (by decide) named
    simp only [Option.map_some, withReturns_of_notMem (notMem_span line)]

/-- A reference has no separators. -/
theorem reference_eq : reference long = (reference short).map withReturns := by
  have same : reference long = reference short := by
    simp only [reference, separated.attribute?_eq, separated.element]
  rw [same]
  cases shown : reference short with
  | none => rfl
  | some written =>
    have line := notMem_reference separated.onLine shown
    rw [Option.map_some, withReturns_of_notMem line]

end Subject.Separated

/-- Every default renderer writes the same under both separators, but for the separators. -/
theorem defaultRenderers_separateAlike :
    ∀ entry ∈ defaultRenderers, SeparatesAlike entry.1 entry.2 := by
  simp only [defaultRenderers, List.forall_mem_cons]
  refine ⟨?member, ?parameter, ?assembly, ?summary, ?remarks, ?returns, ?value, ?typeParameter,
    ?exception, ?sample, ?code, ?paragraph, ?inlineCode, ?nameReference, ?nameReference',
    ?reference, ?reference', List.forall_mem_nil _⟩
  all_goals intro short long tagged separated
  case member => exact separated.member_eq
  case parameter => exact separated.parameter_eq tagged
  case assembly => exact separated.assembly_eq tagged
  case summary =>
    exact separated.shownBody (fun body newline => body ++ newline ++ newline)
      fun body newline => by simp
  case remarks =>
    have caption : '\n' ∉ "**Remarks:** ".toList := by decide
    exact separated.shownBody
      (fun body newline => "**Remarks:** ".toList ++ body ++ newline ++ newline)
      fun body newline => by simp only [withReturns_append, withReturns_of_notMem caption]
  case returns => exact separated.captionedBody (by decide)
  case value => exact separated.captionedBody (by decide)
  case typeParameter =>
    exact separated.captionedBodyOf (by decide) fun name line => by simpa using line
  case exception =>
    exact separated.captionedBodyOf (by decide) fun target line => by
      simpa using notMem_shortReference line
  case sample =>
    have caption : '\n' ∉ "**Example:**".toList := by decide
    exact separated.shownBody
      (fun body newline => "**Example:**".toList ++ newline ++ body ++ newline)
      fun body newline => by simp only [withReturns_append, withReturns_of_notMem caption]
  case code => exact separated.code_eq
  case paragraph =>
    exact separated.shownBody (fun body newline => newline ++ body ++ newline)
      fun body newline => by simp
  case inlineCode => exact separated.inlineCode_eq
  case nameReference | nameReference' => exact separated.nameReference_eq
  case reference | reference' => exact separated.reference_eq

end Markdown

end ApiPages
