import ApiPages.Markdown.Page

/-!
# The default pool

The default pool finds the renderer of each name that it registers. None of its renderers looks at
anything of the options but the line separator, so pools that differ only in whether a page begins
with an index render every tree to the same text.
-/
namespace ApiPages

namespace Dict

variable {α : Type}

/-- Every entry of a dictionary that is built from a list is in the list. -/
theorem mem_of_find_ofList {entries : List (Text × α)} {key : Text} {value : α}
    (found : (ofList entries).get? key = some value) : (key, value) ∈ entries := by
  have generalised : ∀ (entries : List (Text × α)) (dict : Dict α),
      (entries.foldl (fun dict entry => dict.insert entry.1 entry.2) dict).get? key =
        some value → dict.get? key = some value ∨ (key, value) ∈ entries := by
    intro entries
    induction entries with
    | nil => exact fun _ kept => .inl kept
    | cons head rest ih =>
      intro dict kept
      rcases ih _ kept with earlier | later
      · rw [get?_insert] at earlier
        split at earlier
        · rename_i here
          obtain rfl := Option.some.inj earlier
          exact .inr (here ▸ List.mem_cons_self)
        · exact .inl earlier
      · exact .inr (List.mem_cons_of_mem _ later)
  rcases generalised entries empty found with early | listed
  · simp [get?, empty, find] at early
  · exact listed

end Dict

/-- A renderer that reads nothing of the options but the line separator. -/
def Renderer.ReadsNewline (renderer : Renderer) : Prop :=
  ∀ newline first second element parts,
    renderer ⟨⟨newline, first⟩, element, parts⟩ = renderer ⟨⟨newline, second⟩, element, parts⟩

namespace Markdown

/-- The default renderers read nothing of the options but the line separator. -/
theorem defaultRenderers_readNewline :
    ∀ entry ∈ defaultRenderers, Renderer.ReadsNewline entry.2 := by
  simp only [defaultRenderers, List.forall_mem_cons]
  refine ⟨?_, ?_, ?_, ?_, ?_, ?_, ?_, ?_, ?_, ?_, ?_, ?_, ?_, ?_, ?_, ?_, ?_,
    List.forall_mem_nil _⟩
  all_goals
    intro newline first second element parts
    rfl

variable (newline : Newline) (first second : Bool)

/-- What becomes of an element does not depend on whether the page begins with an index. -/
theorem settle_withIndex (element : Element) (parts : List Part) :
    (defaultPool ⟨newline, first⟩).settle element parts =
      (defaultPool ⟨newline, second⟩).settle element parts := by
  rw [Pool.settle, Pool.settle]
  cases found : (defaultPool ⟨newline, first⟩).renderers.get? element.name with
  | none =>
    have same : (defaultPool ⟨newline, second⟩).renderers.get? element.name = none := found
    rw [same]
  | some renderer =>
    have same : (defaultPool ⟨newline, second⟩).renderers.get? element.name = some renderer :=
      found
    have registered : (element.name, renderer) ∈ defaultRenderers :=
      Dict.mem_of_find_ofList found
    have reads := defaultRenderers_readNewline _ registered newline first second element parts
    rw [same]
    exact congrArg Outcome.ofResult reads

/-- What becomes of a row does not depend on whether the page begins with an index. -/
theorem parts_withIndex (content : Content) :
    (defaultPool ⟨newline, first⟩).parts content =
      (defaultPool ⟨newline, second⟩).parts content := by
  induction content with
  | nil => rfl
  | text own rest ih => rw [Pool.parts, Pool.parts, ih]
  | element name attributes content rest inner outer =>
    rw [Pool.parts, Pool.parts, inner, outer, settle_withIndex newline first second]

/-- An element renders to the same text whether or not the page begins with an index. -/
theorem render_withIndex (element : Element) :
    (defaultPool ⟨newline, first⟩).render element =
      (defaultPool ⟨newline, second⟩).render element := by
  rw [Pool.render, Pool.render, Pool.dispatch, Pool.dispatch,
    parts_withIndex newline first second, settle_withIndex newline first second]

/-- A text that is written is what an element renders to. -/
theorem text_ofResult (result : Option Text) :
    (Outcome.ofResult result).text = result.getD [] := by
  cases result with
  | none => rfl
  | some written => cases written <;> rfl

/-- An element with a default renderer renders to what that renderer writes. -/
theorem render_eq_of_renderer {pool : Pool} {element : Element} {renderer : Renderer}
    (registered : pool.renderers.get? element.name = some renderer) :
    pool.render element =
      (renderer ⟨pool.options, element, pool.parts element.content⟩).getD [] := by
  rw [Pool.render, Pool.dispatch, Pool.settle, registered]
  exact text_ofResult _

/-- The default pool renders references as such. -/
theorem defaultPool_reference (options : Options) :
    (defaultPool options).renderers.get? Names.reference = some reference := rfl

/-- The default pool renders members as sections. -/
theorem defaultPool_member (options : Options) :
    (defaultPool options).renderers.get? Names.member = some member := rfl

end Markdown

end ApiPages
