import ApiPages.Markdown.Reference
import ApiPages.Markdown.Section
import ApiPages.Text.Lines

/-!
# The default renderers

Every element of a documentation comment has a renderer here, and the default pool registers them
all. Blocks such as summaries and code samples end their own lines; inline elements such as
references become code spans or links inside running text. A renderer declines an element that
lacks what it needs: a body, a name or a target.
-/
namespace ApiPages.Markdown

/-- A text, unless it is empty. -/
def nonEmpty (text : Text) : Option Text := if text = [] then none else some text

/-- A code span. -/
def span (text : Text) : Text := '\x60' :: text ++ ['\x60']

/-- The fence of a code block. -/
def fence : Text := ['\x60', '\x60', '\x60']

/-- All text inside an element with white space collapsed and trimmed. -/
def label (element : Element) : Text := element.deepText.collapse.trim

/-- An indented line that shows a body behind a caption. -/
def captioned (caption body newline : Text) : Text :=
  '\t' :: caption ++ ": ".toList ++ body ++ ' ' :: newline

/-- The assembly as the title of a page. -/
def assembly : Renderer := fun subject => do
  let named ← (subject.element.childrenNamed Names.name).head?
  let name ← nonEmpty named.deepText.trim
  some ("# ".toList ++ name ++ subject.newline ++ subject.newline)

/-- A summary as a paragraph. -/
def summary : Renderer := fun subject => do
  let body ← nonEmpty subject.body
  some (body ++ subject.newline ++ subject.newline)

/-- Remarks as a paragraph behind a bold caption. -/
def remarks : Renderer := fun subject => do
  let body ← nonEmpty subject.body
  some ("**Remarks:** ".toList ++ body ++ subject.newline ++ subject.newline)

/-- A returned value as a captioned line. -/
def returns : Renderer := fun subject =>
  some (captioned "Returns".toList subject.body subject.newline)

/-- The value of a property as a captioned line. -/
def value : Renderer := fun subject =>
  some (captioned "Value".toList subject.body subject.newline)

/-- A parameter as a captioned line; its own text stands as it was written, before what is
rendered inside it. -/
def parameter : Renderer := fun subject => do
  let name ← subject.attribute? Names.name
  some (captioned ("Parameter ".toList ++ name) (subject.element.ownText ++ subject.children)
    subject.newline)

/-- A type parameter as a captioned line. -/
def typeParameter : Renderer := fun subject => do
  let name ← subject.attribute? Names.name
  some (captioned ("Type parameter ".toList ++ name) subject.body subject.newline)

/-- A thrown exception as a captioned line. -/
def exception : Renderer := fun subject => do
  let target ← subject.attribute? Names.target
  some (captioned ("Exception ".toList ++ shortReference target) subject.body subject.newline)

/-- An example behind a bold caption on a line of its own. -/
def sample : Renderer := fun subject => do
  let body ← nonEmpty subject.body
  some ("**Example:**".toList ++ subject.newline ++ body ++ subject.newline)

/-- A code sample as a fenced block, without the indentation that its lines share. -/
def code : Renderer := fun subject => do
  let lines ← nonEmpty subject.element.deepText.unindent
  let newline := subject.newline
  some (newline ++ fence ++ newline ++ lines.withLineEnds newline ++ newline ++ fence ++ newline)

/-- A paragraph on lines of its own. -/
def paragraph : Renderer := fun subject => do
  let body ← nonEmpty subject.body
  some (subject.newline ++ body ++ subject.newline)

/-- Inline code as a span. -/
def inlineCode : Renderer := fun subject => (nonEmpty (label subject.element)).map span

/-- The name of a parameter as a span. -/
def nameReference : Renderer := fun subject => (subject.attribute? Names.name).map span

/-- The attribute of an external address. -/
def address : Text := "href".toList

/-- The attribute of a keyword. -/
def keyword : Text := "langword".toList

/-- A reference: an external address as a link, a keyword or a member as a span. Text inside the
element stands in for the address or the short form of the member. -/
def reference : Renderer := fun subject =>
  let text := label subject.element
  match subject.attribute? address, subject.attribute? keyword, subject.attribute? Names.target with
  | some address, _, _ =>
    some ('[' :: (if text = [] then address else text) ++ "](".toList ++ address ++ [')'])
  | none, some keyword, _ => some (span keyword)
  | none, none, some target => some (span (if text = [] then shortReference target else text))
  | none, none, none => none

/-- The default renderers with the names of their elements. -/
def defaultRenderers : List (Text × Renderer) :=
  [(Names.member, member),
    ("param".toList, parameter),
    (Names.assembly, assembly),
    ("summary".toList, summary),
    ("remarks".toList, remarks),
    ("returns".toList, returns),
    ("value".toList, value),
    (Names.typeParameter, typeParameter),
    ("exception".toList, exception),
    ("example".toList, sample),
    ("code".toList, code),
    ("para".toList, paragraph),
    (['c'], inlineCode),
    ("paramref".toList, nameReference),
    ("typeparamref".toList, nameReference),
    (Names.reference, reference),
    ("seealso".toList, reference)]

/-- The pool with all default renderers. -/
def defaultPool (options : Options) : Pool := ⟨options, .ofList defaultRenderers⟩

end ApiPages.Markdown
