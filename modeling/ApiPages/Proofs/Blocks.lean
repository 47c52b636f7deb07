import ApiPages.Proofs.DefaultPool
import ApiPages.Proofs.WhiteSpace

/-!
# Nested blocks

The blocks of a documentation comment write their mixed content, without white space at its ends,
between an opening and a closing text. An element below a member that is reached through blocks
alone is described by the levels around it: each is a block together with the nodes that it holds
before and after the way down. A block that holds anything visible is rendered.
-/
namespace ApiPages

namespace Content

/-- A row that holds an element between two other rows. -/
def around (before : Content) (inner : Element) (after : Content) : Content :=
  before.append (.element inner.name inner.attributes inner.content after)

/-- The elements of a row that holds an element between two others. -/
theorem elements_around (before : Content) (inner : Element) (after : Content) :
    (around before inner after).elements = before.elements ++ inner :: after.elements := by
  induction before with
  | nil => rfl
  | text own rest ih => exact ih
  | element name attributes content rest _ ih =>
    exact congrArg (List.cons (⟨name, attributes, content⟩ : Element)) ih

end Content

/-- A text that is not empty is a rendering. -/
theorem Outcome.ofResult_some {written : Text} (filled : written ≠ []) :
    ofResult (some written) = .rendered written := by
  cases written with
  | nil => exact absurd rfl filled
  | cons head rest => rfl

namespace Pool

variable (pool : Pool)

/-- The mixed content of a row: text nodes with white space collapsed, and rendered elements. -/
def mixed (row : Content) : Text := Part.joinMixed (pool.parts row)

/-- The mixed content of a row that holds an element between two others. -/
theorem mixed_around (before : Content) (inner : Element) (after : Content) :
    pool.mixed (before.around inner after) =
      pool.mixed before ++ pool.render inner ++ pool.mixed after := by
  induction before with
  | nil => rfl
  | text own rest ih =>
    simp only [mixed, Content.around, Content.append, parts, Part.joinMixed, List.flatMap_cons,
      List.append_assoc] at ih ⊢
    rw [ih]
  | element name attributes content rest _ ih =>
    simp only [mixed, Content.around, Content.append, parts, Part.joinMixed, List.flatMap_cons,
      List.append_assoc] at ih ⊢
    rw [ih]

end Pool

namespace Markdown

/-- The elements of a documentation comment that write their mixed content as a block. -/
inductive Block where
  /-- A summary. -/
  | summary
  /-- Remarks. -/
  | remarks
  /-- A returned value. -/
  | returns
  /-- The value of a property. -/
  | value
  /-- An example. -/
  | sample
  /-- A paragraph. -/
  | paragraph
  /-- A type parameter. -/
  | typeParameter
  /-- A thrown exception. -/
  | exception
deriving DecidableEq

namespace Block

/-- The name of the element. -/
def tag : Block → Text
  | summary => "summary".toList
  | remarks => "remarks".toList
  | returns => "returns".toList
  | value => "value".toList
  | sample => "example".toList
  | paragraph => "para".toList
  | typeParameter => "typeparam".toList
  | exception => "exception".toList

/-- Whether the attributes hold what the block shows of them. -/
def Accepts (attributes : Dict Text) : Block → Prop
  | typeParameter => (attributes.get? "name".toList).isSome
  | exception => (attributes.get? "cref".toList).isSome
  | summary | remarks | returns | value | sample | paragraph => True

/-- What is written in front of the content. -/
def opening (newline : Text) (attributes : Dict Text) : Block → Text
  | summary => []
  | remarks => "**Remarks:** ".toList
  | returns => "\tReturns: ".toList
  | value => "\tValue: ".toList
  | sample => "**Example:**".toList ++ newline
  | paragraph => newline
  | typeParameter =>
    "\tType parameter ".toList ++ (attributes.get? Names.name).getD [] ++ ": ".toList
  | exception =>
    "\tException ".toList ++ shortReference ((attributes.get? Names.target).getD []) ++ ": ".toList

/-- What is written behind the content. -/
def closing (newline : Text) : Block → Text
  | summary | remarks => newline ++ newline
  | sample | paragraph => newline
  | returns | value | typeParameter | exception => ' ' :: newline

/-- The renderer of the element. -/
def renderer : Block → Renderer
  | summary => Markdown.summary
  | remarks => Markdown.remarks
  | returns => Markdown.returns
  | value => Markdown.value
  | sample => Markdown.sample
  | paragraph => Markdown.paragraph
  | typeParameter => Markdown.typeParameter
  | exception => Markdown.exception

/-- The default pool renders blocks as such. -/
theorem registered (options : Options) (block : Block) :
    (defaultPool options).renderers.get? block.tag = some block.renderer := by
  cases block <;> rfl

/-- A block with a body writes it between its opening and its closing text. -/
theorem renderer_eq (block : Block) (subject : Subject)
    (accepted : block.Accepts subject.element.attributes) (filled : subject.body ≠ []) :
    block.renderer subject =
      some (block.opening subject.newline subject.element.attributes ++ subject.body ++
        block.closing subject.newline) := by
  have whole : nonEmpty subject.body = some subject.body := if_neg filled
  cases block with
  | summary =>
    change Markdown.summary subject = some (subject.body ++ (subject.newline ++ subject.newline))
    rw [Markdown.summary, whole, ← List.append_assoc]
    rfl
  | remarks =>
    change Markdown.remarks subject =
      some ("**Remarks:** ".toList ++ subject.body ++ (subject.newline ++ subject.newline))
    rw [Markdown.remarks, whole, ← List.append_assoc]
    rfl
  | sample =>
    change Markdown.sample subject =
      some ("**Example:**".toList ++ subject.newline ++ subject.body ++ subject.newline)
    rw [Markdown.sample, whole]
    rfl
  | paragraph =>
    change Markdown.paragraph subject = some (subject.newline ++ subject.body ++ subject.newline)
    rw [Markdown.paragraph, whole]
    rfl
  | returns | value => rfl
  | typeParameter =>
    obtain ⟨name, named⟩ := Option.isSome_iff_exists.1 accepted
    have stated : subject.element.attributes.get? Names.name = some name := named
    change Markdown.typeParameter subject =
      some ("\tType parameter ".toList ++ (subject.element.attributes.get? Names.name).getD [] ++
        ": ".toList ++ subject.body ++ ' ' :: subject.newline)
    rw [Markdown.typeParameter, Subject.attribute?, Element.attribute?, stated]
    rfl
  | exception =>
    obtain ⟨target, named⟩ := Option.isSome_iff_exists.1 accepted
    have stated : subject.element.attributes.get? Names.target = some target := named
    change Markdown.exception subject =
      some ("\tException ".toList ++
        shortReference ((subject.element.attributes.get? Names.target).getD []) ++ ": ".toList ++
        subject.body ++ ' ' :: subject.newline)
    rw [Markdown.exception, Subject.attribute?, Element.attribute?, stated]
    rfl

end Block

/-- A block on the way down to an element. -/
structure Level where
  /-- The block. -/
  block : Block
  /-- Its attributes. -/
  attributes : Dict Text
  /-- The attributes hold what the block shows of them. -/
  accepted : block.Accepts attributes
  /-- What the block holds before the way down. -/
  before : Content
  /-- What the block holds after the way down. -/
  after : Content

/-- The block of a level with an element inside. -/
def Level.wrap (level : Level) (inner : Element) : Element :=
  ⟨level.block.tag, level.attributes, level.before.around inner level.after⟩

/-- An element inside nested blocks, of which the outermost is the first. -/
def enclose (levels : List Level) (inner : Element) : Element := levels.foldr Level.wrap inner

/-- A block that holds anything visible is rendered: it writes what it holds, without white space
at the ends, between its opening and its closing text. -/
theorem dispatch_block (options : Options) {block : Block} {found : Element}
    (named : block.tag = found.name) (accepted : block.Accepts found.attributes)
    (visible : ¬((defaultPool options).mixed found.content).isBlank) :
    let pool := defaultPool options
    pool.dispatch found =
      .rendered (block.opening options.newline.text found.attributes ++
        (pool.mixed found.content).trim ++ block.closing options.newline.text) := by
  intro pool
  have body : (pool.mixed found.content).trim ≠ [] := Text.trim_ne_nil visible
  have written := block.renderer_eq ⟨options, found, pool.parts found.content⟩ accepted body
  have registered : pool.renderers.get? found.name = some block.renderer :=
    named ▸ block.registered options
  rw [Pool.dispatch, Pool.settle, registered]
  refine (congrArg Outcome.ofResult written).trans (Outcome.ofResult_some ?_)
  exact List.append_ne_nil_of_left_ne_nil (List.append_ne_nil_of_right_ne_nil _ body) _

/-- A block around an element that shows anything is rendered. -/
theorem render_wrap (options : Options) (level : Level) {inner : Element}
    (visible : ¬((defaultPool options).render inner).isBlank) :
    let pool := defaultPool options
    pool.render (level.wrap inner) =
      level.block.opening options.newline.text level.attributes ++
        (pool.mixed level.before ++ pool.render inner ++ pool.mixed level.after).trim ++
        level.block.closing options.newline.text := by
  intro pool
  have shown : pool.mixed (level.wrap inner).content =
      pool.mixed level.before ++ pool.render inner ++ pool.mixed level.after :=
    pool.mixed_around level.before inner level.after
  have filled : ¬(pool.mixed (level.wrap inner).content).isBlank := by
    intro blank
    rw [shown, Text.isBlank_append, Text.isBlank_append] at blank
    simp only [Bool.and_eq_true] at blank
    exact visible blank.1.2
  have named : level.block.tag = (level.wrap inner).name := rfl
  rw [Pool.render, dispatch_block options named level.accepted filled, ← shown]
  rfl

end Markdown

end ApiPages
