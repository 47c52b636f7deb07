import Mathlib.Data.List.Basic
import ApiPages.Proofs.DefaultPool
import ApiPages.Proofs.Descendants

/-!
# Pools that are called back

A renderer may be given its pool instead of what became of the nodes inside its element, and ask the
pool what becomes of other elements. As long as it asks about nothing but what is inside its own
element, every element comes to something, and to what is decided by the renderers of the names in
it: pools that have the same renderers for these names render it alike, whatever else is registered
in them. The pools whose renderers are given what became of the nodes are among these pools.
-/
namespace ApiPages

namespace Content

/-- The parts of a row, given what becomes of each element. -/
def partsBy (answer : Element → Outcome) : Content → List Part
  | nil => []
  | text own rest => .text own :: rest.partsBy answer
  | element name attributes content rest =>
    .element (answer ⟨name, attributes, content⟩) :: rest.partsBy answer

/-- The parts of a row depend on what becomes of the elements inside it. -/
theorem partsBy_congr {first second : Element → Outcome} {content : Content}
    (same : ∀ inner ∈ content.descendants, first inner = second inner) :
    content.partsBy first = content.partsBy second := by
  induction content with
  | nil => rfl
  | text own rest ih => rw [partsBy, partsBy, ih same]
  | element name attributes content rest _ ih =>
    rw [descendants, List.cons_append, List.forall_mem_cons] at same
    have behind := ih fun inner listed => same.2 inner (List.mem_append_right _ listed)
    rw [partsBy, partsBy, same.1, behind]

end Content

/-- The names of an element and of all elements inside it. -/
def Element.names (element : Element) : List Text :=
  element.name :: element.content.descendants.map (·.name)

/-- The names in an element below another one are names in that one. -/
theorem Element.names_subset {element inner : Element}
    (below : inner ∈ element.content.descendants) : inner.names ⊆ element.names := by
  have own : inner.name ∈ element.content.descendants.map (·.name) := List.mem_map_of_mem below
  have others := List.map_subset (·.name) (Content.descendants_subset below)
  exact List.cons_subset.2
    ⟨List.mem_cons_of_mem _ own, fun _ listed => List.mem_cons_of_mem _ (others listed)⟩

/-- A renderer that asks its pool what becomes of elements inside its own. -/
structure CallingRenderer where
  /-- Gives the text of an element, or declines it, given what the pool answers about others. -/
  give : Options → (answer : Element → Outcome) → Element → Option Text
  /-- The pool is asked about nothing but what is inside the element. -/
  asksInside : ∀ options {first second : Element → Outcome} {element : Element},
    (∀ inner ∈ element.content.descendants, first inner = second inner) →
      give options first element = give options second element

/-- Renderers that are called with their pool, under the names of the elements that they render. -/
structure CallingPool where
  /-- How pages are written. -/
  options : Options
  /-- The renderers. -/
  renderers : Dict CallingRenderer

namespace CallingPool

/-- Sets the renderer for a name. -/
def register (pool : CallingPool) (name : Text) (renderer : CallingRenderer) : CallingPool :=
  { pool with renderers := pool.renderers.insert name renderer }

/-- What becomes of an element, given what the pool answers about others. -/
def settle (pool : CallingPool) (answer : Element → Outcome) (element : Element) : Outcome :=
  match pool.renderers.get? element.name with
  | none => .unregistered
  | some renderer => .ofResult (renderer.give pool.options answer element)

/-- What becomes of an element. It holds more elements than each one that the pool is asked about
on the way. -/
def dispatch (pool : CallingPool) (element : Element) : Outcome :=
  pool.settle (fun inner =>
    if inner.content.descendants.length < element.content.descendants.length then
      pool.dispatch inner
    else .unregistered) element
termination_by element.content.descendants.length

/-- The text of an element, empty if it is not rendered. -/
def render (pool : CallingPool) (element : Element) : Text := (pool.dispatch element).text

/-- The rendered elements directly inside an element, joined. -/
def renderChildren (pool : CallingPool) (element : Element) : Text :=
  Part.joinElements (element.content.partsBy pool.dispatch)

/-- The mixed content of an element: text nodes with white space collapsed, and rendered
elements. -/
def renderMixed (pool : CallingPool) (element : Element) : Text :=
  Part.joinMixed (element.content.partsBy pool.dispatch)

/-- What becomes of an element depends on the answers about what is inside it. -/
theorem settle_congr (pool : CallingPool) {first second : Element → Outcome} {element : Element}
    (same : ∀ inner ∈ element.content.descendants, first inner = second inner) :
    pool.settle first element = pool.settle second element := by
  rw [settle, settle]
  cases pool.renderers.get? element.name with
  | none => rfl
  | some renderer => exact congrArg Outcome.ofResult (renderer.asksInside pool.options same)

/-- The answers of a pool agree with its renderers. -/
def Settles (pool : CallingPool) (answer : Element → Outcome) : Prop :=
  ∀ element, answer element = pool.settle answer element

/-- The pool answers every question that its renderers ask. -/
theorem settles_dispatch (pool : CallingPool) : pool.Settles pool.dispatch := by
  intro element
  rw [dispatch]
  refine pool.settle_congr fun inner below => ?_
  rw [if_pos (Content.length_descendants_lt below)]

/-- Pools with the same options and the same renderers for the names in an element come to the same
answer about it. -/
theorem answer_congr {first second : CallingPool} (written : first.options = second.options)
    {one two : Element → Outcome} (early : first.Settles one) (late : second.Settles two)
    {element : Element}
    (agree : ∀ name ∈ element.names, first.renderers.get? name = second.renderers.get? name) :
    one element = two element := by
  -- The questions are about elements that hold fewer others.
  induction element using
    (measure fun element : Element => element.content.descendants.length).wf.induction with
  | _ element ih =>
    have inside : ∀ inner ∈ element.content.descendants, one inner = two inner := by
      intro inner below
      exact ih inner (Content.length_descendants_lt below) fun name listed =>
        agree name (Element.names_subset below listed)
    have own := agree element.name List.mem_cons_self
    calc one element = first.settle one element := early element
      _ = second.settle one element := by rw [settle, settle, own, written]
      _ = second.settle two element := second.settle_congr inside
      _ = two element := (late element).symm

/-- The parts inside an element are the same in pools that have the same renderers for the names in
it. -/
theorem partsBy_dispatch_congr {first second : CallingPool}
    (written : first.options = second.options) {element : Element}
    (agree : ∀ name ∈ element.names, first.renderers.get? name = second.renderers.get? name) :
    element.content.partsBy first.dispatch = element.content.partsBy second.dispatch :=
  Content.partsBy_congr fun _ below =>
    answer_congr written first.settles_dispatch second.settles_dispatch fun name listed =>
      agree name (Element.names_subset below listed)

end CallingPool

/-- A renderer that is given what became of the nodes, as one that asks its pool for it. -/
def Renderer.calling (renderer : Renderer) : CallingRenderer where
  give options answer element := renderer ⟨options, element, element.content.partsBy answer⟩
  asksInside _ _ _ _ same := by rw [Content.partsBy_congr same]

namespace Pool

/-- A pool whose renderers are called with the pool. -/
def calling (pool : Pool) : CallingPool := ⟨pool.options, pool.renderers.mapValues Renderer.calling⟩

/-- What becomes of the nodes of a row is what becomes of its elements one by one. -/
theorem parts_eq_partsBy (pool : Pool) (content : Content) :
    pool.parts content = content.partsBy pool.dispatch := by
  induction content with
  | nil => rfl
  | text own rest ih => rw [parts, Content.partsBy, ih]
  | element name attributes content rest _ ih =>
    rw [parts, Content.partsBy, ih]
    rfl

/-- A pool answers what its renderers ask when they are called with it. -/
theorem calling_settles (pool : Pool) : pool.calling.Settles pool.dispatch := by
  intro element
  rw [dispatch, settle, CallingPool.settle, calling, Dict.get?_mapValues, parts_eq_partsBy]
  cases pool.renderers.get? element.name <;> rfl

/-- It makes no difference whether renderers are given what became of the nodes or ask for it. -/
theorem dispatch_calling (pool : Pool) : pool.calling.dispatch = pool.dispatch :=
  funext fun _ => CallingPool.answer_congr rfl pool.calling.settles_dispatch pool.calling_settles
    fun _ _ => rfl

end Pool

/-- The pools that come from the pool without renderers or from the default pool by registering
renderers that ask about nothing but what is inside their elements. -/
inductive Registered (options : Options) : CallingPool → Prop where
  /-- The pool without renderers. -/
  | empty : Registered options (Pool.empty options).calling
  /-- The pool with all default renderers. -/
  | defaults : Registered options (Markdown.defaultPool options).calling
  /-- A pool with one more renderer, which replaces an earlier one of the same name. -/
  | register {pool : CallingPool} (name : Text) (renderer : CallingRenderer)
      (before : Registered options pool) : Registered options (pool.register name renderer)

/-- A registered pool keeps the options that it was made with. -/
theorem Registered.options_eq {options : Options} {pool : CallingPool}
    (registered : Registered options pool) : pool.options = options := by
  induction registered with
  | empty | defaults => rfl
  | register _ _ _ ih => exact ih

/-- Rendering depends only on the renderers of the names that occur: pools that come from the empty
or the default pool with the same options render an element alike if they have the same renderers,
or none, for its name and for those inside it. The pools of renderers that are given what became of
the nodes are among these pools. -/
theorem render_congr_of_names (options : Options) :
    (∀ first second, Registered options first → Registered options second →
      ∀ element : Element,
      (∀ name ∈ element.names, first.renderers.get? name = second.renderers.get? name) →
      first.dispatch element = second.dispatch element ∧
      first.render element = second.render element ∧
      first.renderChildren element = second.renderChildren element ∧
      first.renderMixed element = second.renderMixed element) ∧
    ∀ (pool : Pool) (element : Element),
      pool.calling.dispatch element = pool.dispatch element ∧
      pool.calling.render element = pool.render element ∧
      pool.calling.renderChildren element = pool.renderChildren element ∧
      pool.calling.renderMixed element = pool.renderMixed element := by
  constructor
  · intro first second one two element agree
    have written : first.options = second.options := one.options_eq.trans two.options_eq.symm
    have outcome : first.dispatch element = second.dispatch element :=
      CallingPool.answer_congr written first.settles_dispatch second.settles_dispatch agree
    have inside := CallingPool.partsBy_dispatch_congr written agree
    refine ⟨outcome, ?_, ?_, ?_⟩
    · rw [CallingPool.render, CallingPool.render, outcome]
    · rw [CallingPool.renderChildren, CallingPool.renderChildren, inside]
    · rw [CallingPool.renderMixed, CallingPool.renderMixed, inside]
  · intro pool element
    refine ⟨?_, ?_, ?_, ?_⟩
    · rw [pool.dispatch_calling]
    · rw [CallingPool.render, pool.dispatch_calling, Pool.render]
    · rw [CallingPool.renderChildren, pool.dispatch_calling, Pool.renderChildren,
        pool.parts_eq_partsBy]
    · rw [CallingPool.renderMixed, pool.dispatch_calling, Pool.renderMixed, pool.parts_eq_partsBy]

/-- A renderer that shows everything inside its element, at any depth, in brackets. -/
def CallingRenderer.bracketed : CallingRenderer where
  give _ answer element :=
    some (element.content.descendants.flatMap fun inner => '[' :: (answer inner).text ++ [']'])
  asksInside _ _ _ _ same :=
    congrArg some (List.flatMap_congr fun inner listed => by rw [same inner listed])

/-- A box with a paragraph and code in it is rendered alike by a pool with two of the default
renderers and by the default pool, in which a renderer of another name has been replaced. -/
theorem render_congr_of_names_of_box :
    let box : Element := ⟨"box".toList, .empty, .ofNodes [.element ⟨"para".toList, .empty,
      .ofNodes [.text "See ".toList, .element ⟨['c'], .empty, .text ['x'] .nil⟩]⟩]⟩
    let first := ((Pool.empty {}).calling.register "para".toList
      Markdown.paragraph.calling).register ['c'] Markdown.inlineCode.calling
    let second := (Markdown.defaultPool {}).calling.register "remarks".toList .bracketed
    let one := first.register "box".toList .bracketed
    let two := second.register "box".toList .bracketed
    (∀ name ∈ box.names, one.renderers.get? name = two.renderers.get? name) ∧
      one.renderers.get? "remarks".toList ≠ two.renderers.get? "remarks".toList ∧
      one.dispatch box = two.dispatch box ∧ one.render box = two.render box ∧
      one.renderChildren box = two.renderChildren box ∧
      one.renderMixed box = two.renderMixed box := by
  intro box first second one two
  have agree : ∀ name ∈ box.names, one.renderers.get? name = two.renderers.get? name := by
    have names : box.names = ["box".toList, "para".toList, ['c']] := rfl
    rw [names, List.forall_mem_cons, List.forall_mem_cons, List.forall_mem_singleton]
    exact ⟨rfl, rfl, rfl⟩
  have differ : one.renderers.get? "remarks".toList ≠ two.renderers.get? "remarks".toList := by
    have absent : one.renderers.get? "remarks".toList = none := rfl
    have present : two.renderers.get? "remarks".toList = some .bracketed := rfl
    rw [absent, present]
    nofun
  exact ⟨agree, differ, (render_congr_of_names {}).1 one two
    (.register _ _ (.register _ _ (.register _ _ .empty)))
    (.register _ _ (.register _ _ .defaults)) box agree⟩

end ApiPages
