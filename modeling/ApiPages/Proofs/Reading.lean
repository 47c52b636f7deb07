import ApiPages.Proofs.DefaultPool

/-!
# What the default renderers read

A default renderer reads the attributes of its element and one or two views of what is inside: the
rendered elements, the mixed content, its own text, or all text below it as it stands or as a label.
Which views it reads is decided by the name of the element. Subjects that agree in these views are
rendered to the same text, and so are the elements and the rows that they come from.
-/
namespace ApiPages.Markdown

/-- The elements that show all text below them as a label. -/
def labelledNames : List Text := [['c'], Names.reference, "seealso".toList]

/-- Subjects that agree in all that is read of an element of some name. -/
structure Subject.ReadAlike (name : Text) (first second : Subject) : Prop where
  /-- Both are written with the same line separator. -/
  newline : first.newline = second.newline
  /-- Every element is read by its attributes. -/
  attributes : first.element.attributes = second.element.attributes
  /-- The same is rendered of the elements inside. -/
  children : first.children = second.children
  /-- The mixed content is the same, unless only the elements inside are read. -/
  mixed : name ≠ Names.member → first.mixed = second.mixed
  /-- A parameter is read by its own text. -/
  ownText : name = "param".toList → first.element.ownText = second.element.ownText
  /-- A code sample is read by all text below it. -/
  deepText : name = "code".toList → first.element.deepText = second.element.deepText
  /-- Some elements are read by their label. -/
  label : name ∈ labelledNames → Markdown.label first.element = Markdown.label second.element
  /-- An assembly is read by all text below the element that names it. -/
  assemblyName : name = Names.assembly →
    (first.element.childrenNamed Names.name).head?.map Element.deepText =
      (second.element.childrenNamed Names.name).head?.map Element.deepText

namespace Subject.ReadAlike

variable {name : Text} {first second : Subject}

/-- The attributes are read one by one. -/
theorem attribute?_eq (alike : Subject.ReadAlike name first second) (key : Text) :
    first.attribute? key = second.attribute? key := by
  rw [Subject.attribute?, Subject.attribute?, Element.attribute?, Element.attribute?,
    alike.attributes]

/-- The body is the same, unless only the elements inside are read. -/
theorem body_eq (alike : Subject.ReadAlike name first second) (other : name ≠ Names.member) :
    first.body = second.body := by
  rw [Subject.body, Subject.body, alike.mixed other]

/-- The assembly is shown under the same name. -/
theorem assembly_eq (alike : Subject.ReadAlike Names.assembly first second) :
    assembly first = assembly second := by
  have written : ∀ subject : Subject, assembly subject =
      ((subject.element.childrenNamed Names.name).head?.map Element.deepText).bind fun text =>
        (nonEmpty text.trim).map fun name =>
          "# ".toList ++ name ++ subject.newline ++ subject.newline := by
    intro subject
    simp only [assembly, bind, Option.map_eq_bind, Option.bind_assoc, Option.bind_some,
      Function.comp_def]
  rw [written, written, alike.assemblyName rfl, alike.newline]

/-- A reference is shown the same. -/
theorem reference_eq (alike : Subject.ReadAlike name first second)
    (labelled : name ∈ labelledNames) : reference first = reference second := by
  simp only [reference, alike.attribute?_eq, alike.label labelled]

end Subject.ReadAlike

/-- A default renderer gives the same text for subjects that agree in all it reads. -/
theorem defaultRenderers_readAlike :
    ∀ entry ∈ defaultRenderers, ∀ first second : Subject,
      Subject.ReadAlike entry.1 first second → entry.2 first = entry.2 second := by
  simp only [defaultRenderers, List.forall_mem_cons]
  refine ⟨?member, ?parameter, ?assembly, ?summary, ?remarks, ?returns, ?value, ?typeParameter,
    ?exception, ?sample, ?code, ?paragraph, ?inlineCode, ?nameReference, ?nameReference',
    ?reference, ?reference', List.forall_mem_nil _⟩
  all_goals intro first second alike
  case member => simp only [member, alike.attribute?_eq, alike.children, alike.newline]
  case parameter =>
    simp only [parameter, alike.attribute?_eq, alike.ownText rfl, alike.children, alike.newline]
  case assembly => exact alike.assembly_eq
  case summary => simp only [summary, alike.body_eq (by decide), alike.newline]
  case remarks => simp only [remarks, alike.body_eq (by decide), alike.newline]
  case returns => simp only [returns, alike.body_eq (by decide), alike.newline]
  case value => simp only [value, alike.body_eq (by decide), alike.newline]
  case typeParameter =>
    simp only [typeParameter, alike.attribute?_eq, alike.body_eq (by decide), alike.newline]
  case exception =>
    simp only [exception, alike.attribute?_eq, alike.body_eq (by decide), alike.newline]
  case sample => simp only [sample, alike.body_eq (by decide), alike.newline]
  case code => simp only [code, alike.deepText rfl, alike.newline]
  case paragraph => simp only [paragraph, alike.body_eq (by decide), alike.newline]
  case inlineCode => simp only [inlineCode, alike.label (by decide)]
  case nameReference | nameReference' => simp only [nameReference, alike.attribute?_eq]
  case reference | reference' => exact alike.reference_eq (by decide)

/-- Elements of one name that agree in all that is read of them come to the same. -/
theorem settle_readAlike {options : Options} (first second : Element) {parts others : List Part}
    (named : first.name = second.name)
    (alike : Subject.ReadAlike first.name ⟨options, first, parts⟩ ⟨options, second, others⟩) :
    (defaultPool options).settle first parts = (defaultPool options).settle second others := by
  rw [Pool.settle, Pool.settle, ← named]
  cases found : (defaultPool options).renderers.get? first.name with
  | none => rfl
  | some renderer =>
    have registered : (first.name, renderer) ∈ defaultRenderers := Dict.mem_of_find_ofList found
    exact congrArg Outcome.ofResult (defaultRenderers_readAlike _ registered _ _ alike)

end ApiPages.Markdown
