import ApiPages.Proofs.CodeFences
import ApiPages.Proofs.Pieces

/-!
# Text that is never lost

Inside a member, running text and code samples are reached through blocks: summaries, remarks,
paragraphs and the like. Every block trims what it holds and declines when nothing is left, but a
visible text below it keeps it from being declined, and trimming only takes the white space around
the outermost of the texts below. So the section of a member shows every such text and every such
sample, in document order.
-/
namespace ApiPages

/-- Collapsing white space leaves a text blank or not. -/
theorem Text.isBlank_collapse (text : Text) : text.collapse.isBlank = text.isBlank := by
  have running : ∀ spaced, (collapseFrom spaced text).isBlank = text.isBlank := by
    have single : isSpace ' ' := by decide
    induction text with
    | nil => simp [collapseFrom]
    | cons head rest ih =>
      intro spaced
      have whole : isBlank (head :: rest) = (isSpace head && isBlank rest) := List.all_cons
      by_cases white : isSpace head
      · cases spaced <;> simp_all [collapseFrom, isBlank]
      · simp_all [collapseFrom, isBlank]
  exact running false

/-- An element that renders to anything has been rendered. -/
theorem Pool.dispatch_of_render (pool : Pool) {found : Element} (shown : pool.render found ≠ []) :
    pool.dispatch found = .rendered (pool.render found) := by
  rw [render] at shown ⊢
  cases outcome : pool.dispatch found with
  | unregistered | declined =>
    rw [outcome] at shown
    exact absurd rfl shown
  | rendered written => rfl

namespace Markdown

namespace Block

/-- Every block. -/
def all : List Block :=
  [summary, remarks, returns, value, sample, paragraph, typeParameter, exception]

instance (attributes : Dict Text) : (block : Block) → Decidable (block.Accepts attributes)
  | typeParameter => inferInstanceAs (Decidable ((attributes.get? "name".toList).isSome = true))
  | exception => inferInstanceAs (Decidable ((attributes.get? "cref".toList).isSome = true))
  | summary | remarks | returns | value | sample | paragraph => isTrue trivial

end Block

/-- A node that is reached through blocks. -/
structure Reached where
  /-- The blocks on the way to the node, of which the outermost is the first. -/
  way : List Element
  /-- The node. -/
  node : Node

/-- The same node, reached through one more block further out. -/
def Reached.within (outer : Element) (inner : Reached) : Reached := ⟨outer :: inner.way, inner.node⟩

/-- The elements on the way to a node, and the node itself if it is an element. -/
def Reached.elements (inner : Reached) : List Element :=
  match inner.node with
  | .text _ => inner.way
  | .element found => inner.way ++ [found]

/-- One more block further out is one more element on the way. -/
theorem Reached.elements_within (outer : Element) (inner : Reached) :
    (inner.within outer).elements = outer :: inner.elements := by
  obtain ⟨way, node⟩ := inner
  cases node <;> rfl

/-- Whether an element is a block that has the attributes that it shows. -/
def isBlock (found : Element) : Bool :=
  Block.all.any fun block => block.tag = found.name ∧ block.Accepts found.attributes

/-- The nodes of a row and the nodes that are reached from it through blocks, in document order. -/
def reached : Content → List Reached
  | .nil => []
  | .text own rest => ⟨[], .text own⟩ :: reached rest
  | .element name attributes content rest =>
    let found : Element := ⟨name, attributes, content⟩
    ⟨[], .element found⟩ ::
      (if isBlock found then (reached content).map (.within found) else []) ++ reached rest

/-- The nodes that are reached through an element, if it is a block. -/
def reachedInside (found : Element) : List Reached :=
  if isBlock found then (reached found.content).map (.within found) else []

/-- What a page shows of a node that is reached through blocks: a text that is not blank, with white
space collapsed and cut off its ends, and the fenced block of a code sample that is not blank. -/
def piece? (newline : Text) : Node → Option Text
  | .text own => if own.isBlank then none else some own.collapse.trim
  | .element found =>
    if found.name = "code".toList ∧ ¬found.deepText.isBlank then
      some (codeBlock newline found)
    else none

/-- A piece of a page begins and ends with a visible sign. -/
theorem tight_of_piece? {newline piece : Text} {node : Node}
    (shown : piece? newline node = some piece) : piece.Tight := by
  cases node with
  | text own =>
    rw [piece?] at shown
    split at shown
    · cases shown
    · rename_i filled
      obtain rfl := Option.some.inj shown
      exact Text.tight_trim (by rwa [Text.isBlank_collapse])
  | element found =>
    rw [piece?] at shown
    split at shown
    · obtain rfl := Option.some.inj shown
      obtain ⟨middle, fenced⟩ := exists_codeBlock_eq newline found
      exact ⟨⟨_, _, fenced, by decide⟩, ⟨_, _, fenced, by decide⟩⟩
    · cases shown

/-- The pieces of the nodes that are reached from a row, in document order. -/
def pieces (newline : Text) (row : Content) : List Text :=
  (reached row).filterMap fun inner => piece? newline inner.node

/-- The pieces of the nodes that are reached through an element. -/
def piecesInside (newline : Text) (found : Element) : List Text :=
  (reachedInside found).filterMap fun inner => piece? newline inner.node

/-- The pieces that are reached through a block are those of its content. -/
theorem piecesInside_eq (newline : Text) (found : Element) :
    piecesInside newline found = if isBlock found then pieces newline found.content else [] := by
  rw [piecesInside, reachedInside]
  split
  · rw [List.filterMap_map]
    rfl
  · rfl

/-- Pieces of nodes are tight. -/
theorem tight_of_mem {newline : Text} {nodes : List Reached} :
    ∀ piece ∈ nodes.filterMap (fun inner => piece? newline inner.node), piece.Tight := by
  intro piece listed
  obtain ⟨inner, -, shown⟩ := List.mem_filterMap.1 listed
  exact tight_of_piece? shown

/-- The pieces of a row that begins with a text. -/
theorem pieces_text (newline own : Text) (rest : Content) :
    pieces newline (.text own rest) =
      (piece? newline (.text own)).toList ++ pieces newline rest := by
  rw [pieces, reached, List.filterMap_cons]
  cases piece? newline (.text own) <;> rfl

/-- The pieces of a row that begins with an element. -/
theorem pieces_element (newline name : Text) (attributes : Dict Text) (content rest : Content) :
    pieces newline (.element name attributes content rest) =
      (piece? newline (.element ⟨name, attributes, content⟩)).toList ++
        (piecesInside newline ⟨name, attributes, content⟩ ++ pieces newline rest) := by
  rw [pieces, reached, List.cons_append, List.filterMap_cons, List.filterMap_append]
  cases piece? newline (.element ⟨name, attributes, content⟩) <;> rfl

/-- A block is the element of one of the blocks, with the attributes that it shows. -/
theorem exists_of_isBlock {found : Element} (block : isBlock found) :
    ∃ kind : Block, kind.tag = found.name ∧ kind.Accepts found.attributes := by
  obtain ⟨kind, -, suited⟩ := List.any_eq_true.1 block
  exact ⟨kind, of_decide_eq_true suited⟩

/-- A block is no code sample. -/
theorem piece?_of_isBlock (newline : Text) {found : Element} (block : isBlock found) :
    piece? newline (.element found) = none := by
  obtain ⟨kind, named, -⟩ := exists_of_isBlock block
  have other : found.name ≠ "code".toList := by
    rw [← named]
    cases kind <;> decide
  exact if_neg fun sample => other sample.1

variable (options : Options)

/-- A code sample shows its own piece. -/
theorem render_holdsInOrder_own (found : Element) :
    ((defaultPool options).render found).HoldsInOrder
      (piece? options.newline.text (.element found)).toList := by
  rw [piece?]
  split
  · rename_i sample
    rw [render_code options sample.1 sample.2]
    exact ⟨_, _, rfl, trivial⟩
  · exact trivial

/-- A block shows the pieces inside it if its mixed content holds them: it is rendered unless there
are none. -/
theorem render_holdsInOrder_inside {found : Element}
    (inside : ((defaultPool options).mixed found.content).HoldsInOrder
      (pieces options.newline.text found.content)) :
    ((defaultPool options).render found).HoldsInOrder
      (piecesInside options.newline.text found) := by
  rw [piecesInside_eq]
  split
  case isFalse => exact trivial
  case isTrue block =>
    obtain ⟨kind, named, accepted⟩ := exists_of_isBlock block
    cases shown : pieces options.newline.text found.content with
    | nil => exact trivial
    | cons piece others =>
      have tight : ∀ piece ∈ pieces options.newline.text found.content, piece.Tight :=
        tight_of_mem
      have visible : ¬((defaultPool options).mixed found.content).isBlank := by
        rw [shown] at inside tight
        exact inside.not_isBlank (tight piece List.mem_cons_self)
      rw [← shown, Pool.render, dispatch_block options named accepted visible]
      exact ((inside.trim tight).behind _).before _

/-- The mixed content of a row holds its pieces in order. -/
theorem mixed_holdsInOrder (row : Content) :
    ((defaultPool options).mixed row).HoldsInOrder (pieces options.newline.text row) := by
  induction row with
  | nil => exact trivial
  | text own rest ih =>
    rw [pieces_text]
    have start : own.collapse.HoldsInOrder (piece? options.newline.text (.text own)).toList := by
      rw [piece?]
      split
      · exact trivial
      · obtain ⟨front, back, -, -, whole⟩ := own.collapse.exists_eq_trim
        exact ⟨front, back, whole, trivial⟩
    exact start.append ih
  | element name attributes content rest inner outer =>
    rw [pieces_element]
    by_cases block : isBlock ⟨name, attributes, content⟩
    · rw [piece?_of_isBlock _ block]
      exact (render_holdsInOrder_inside options inner).append outer
    · rw [piecesInside_eq, if_neg block]
      exact (render_holdsInOrder_own options ⟨name, attributes, content⟩).append outer

/-- What an element renders to holds the pieces that are reached through it. -/
theorem render_holdsInside (found : Element) :
    ((defaultPool options).render found).HoldsInOrder
      (piecesInside options.newline.text found) :=
  render_holdsInOrder_inside options (mixed_holdsInOrder options found.content)

/-- The pieces that are reached from a row through one or more blocks. -/
def piecesBelow (newline : Text) (row : Content) : List Text :=
  ((reached row).filter fun inner => inner.way ≠ []).filterMap fun inner =>
    piece? newline inner.node

/-- The pieces below a row are those inside its elements. -/
theorem piecesBelow_eq (newline : Text) (row : Content) :
    piecesBelow newline row = row.elements.flatMap (piecesInside newline) := by
  induction row with
  | nil => rfl
  | text own rest ih => exact ih
  | element name attributes content rest _ ih =>
    have kept : (reachedInside ⟨name, attributes, content⟩).filter (fun inner => inner.way ≠ []) =
        reachedInside ⟨name, attributes, content⟩ := by
      rw [List.filter_eq_self, reachedInside]
      split
      · intro inner listed
        obtain ⟨deeper, -, rfl⟩ := List.mem_map.1 listed
        simp [Reached.within]
      · intro inner listed
        cases listed
    have split : (reached (.element name attributes content rest)).filter
        (fun inner => inner.way ≠ []) =
          reachedInside ⟨name, attributes, content⟩ ++
            (reached rest).filter fun inner => inner.way ≠ [] := by
      rw [← kept, ← List.filter_append, reached, List.cons_append,
        List.filter_cons_of_neg (by simp)]
      rfl
    rw [Content.elements, List.flatMap_cons, ← ih, piecesBelow, piecesBelow, split,
      List.filterMap_append]
    rfl

/-- No element on the way to a piece is declined. -/
theorem dispatch_of_reached {row : Content} {inner : Reached} (listed : inner ∈ reached row)
    (shown : piece? options.newline.text inner.node ≠ none) :
    ∀ found ∈ inner.elements, (defaultPool options).dispatch found =
      .rendered ((defaultPool options).render found) := by
  induction row generalizing inner with
  | nil => cases listed
  | text own rest ih =>
    rcases List.mem_cons.1 listed with rfl | later
    · exact List.forall_mem_nil _
    · exact ih later shown
  | element name attributes content rest inside outside =>
    let block : Element := ⟨name, attributes, content⟩
    rcases List.mem_cons.1 listed with rfl | listed
    · intro found own
      obtain rfl := List.mem_singleton.1 own
      obtain ⟨piece, sample⟩ := Option.ne_none_iff_exists'.1 shown
      have holds := render_holdsInOrder_own options block
      rw [sample] at holds
      exact Pool.dispatch_of_render _ (holds.ne_nil (tight_of_piece? sample))
    rcases List.mem_append.1 listed with within | behind
    · have within : inner ∈ reachedInside block := within
      obtain ⟨piece, written⟩ := Option.ne_none_iff_exists'.1 shown
      have met : piece ∈ piecesInside options.newline.text block :=
        List.mem_filterMap.2 ⟨inner, within, written⟩
      have outermost : (defaultPool options).render block ≠ [] := by
        have holds := render_holdsInside options block
        obtain ⟨first, others, all⟩ := List.exists_cons_of_ne_nil (List.ne_nil_of_mem met)
        have tight : first.Tight := tight_of_mem first (all ▸ List.mem_cons_self)
        rw [all] at holds
        exact holds.ne_nil tight
      rw [reachedInside] at within
      split at within
      · obtain ⟨deeper, below, rfl⟩ := List.mem_map.1 within
        have further := inside below shown
        rw [Reached.elements_within]
        exact List.forall_mem_cons.2 ⟨Pool.dispatch_of_render _ outermost, further⟩
      · cases within
    · exact outside behind shown

/-- No text is lost. Let a member state its name, a known kind and its namespace, and take the nodes
that are reached from it through one or more blocks. The member is rendered, and what it renders to
holds, in document order and without overlap, every text among them that is not blank, with white
space collapsed and cut off its ends, and the fenced block of every code sample that is not blank.
None of these samples is declined, and none of the blocks on the way to a text or a sample. -/
theorem prose_kept {member : Element} {name space : Text} {kind : MemberKind}
    (tagged : member.name = "member".toList)
    (named : member.attribute? "name".toList = some name)
    (typed : member.attribute? "membertype".toList = some kind.code)
    (placed : member.attribute? "namespace".toList = some space) :
    let pool := defaultPool options
    let newline := options.newline.text
    let inside := (reached member.content).filter fun inner => inner.way ≠ []
    ∃ written, pool.dispatch member = .rendered written ∧
      written.HoldsInOrder (inside.filterMap fun inner => piece? newline inner.node) ∧
      ∀ inner ∈ inside, piece? newline inner.node ≠ none →
        ∀ found ∈ inner.elements, ∃ shown, pool.dispatch found = .rendered shown := by
  intro pool newline inside
  let heading : Heading := ⟨kind, name, anchor space name⟩
  have known : MemberKind.ofCode? kind.code = some kind := MemberKind.ofCode?_eq_some_iff.2 rfl
  have headed : Heading.ofMember? member = some heading := by
    have stated : member.attribute? Names.name = some name ∧
        member.attribute? Names.memberType = some kind.code ∧
        member.attribute? Names.space = some space := ⟨named, typed, placed⟩
    simp only [Heading.ofMember?, stated, known, bind, Option.bind_some]
    rfl
  have written : pool.render member = heading.part newline (pool.renderChildren member) := by
    rw [Heading.render_member options tagged, headed]
    rfl
  have holds : (pool.render member).HoldsInOrder (piecesBelow newline member.content) := by
    obtain ⟨front, back, split⟩ := heading.exists_part_eq newline
    rw [written, split, renderChildren_eq, piecesBelow_eq]
    have children := Text.HoldsInOrder.flatMap fun found (_ : found ∈ member.children) =>
      render_holdsInside options found
    exact (children.behind _).before back
  refine ⟨pool.render member, pool.dispatch_of_render ?_, holds, ?_⟩
  · rw [written]
    exact (heading.opens_part _ _).ne_nil
  · intro inner listed shown found passed
    exact ⟨_, dispatch_of_reached options (List.mem_filter.1 listed).1 shown found passed⟩

/-- A corrected type with a summary that ends in a paragraph, beside an element without a renderer,
and with an exception that has no target. -/
def describedCircle : Element where
  name := Names.member
  attributes := .ofList
    [(Names.name, "Circle".toList), (Names.memberType, ['T']), (Names.space, "Shapes".toList)]
  content := .ofNodes
    [.text "unread".toList,
      .element ⟨"summary".toList, .empty, .ofNodes
        [.text "\n  A round\n  shape. ".toList,
          .element ⟨"list".toList, .empty, .ofNodes [.text "unknown".toList]⟩,
          .element ⟨"para".toList, .empty, .ofNodes
            [.text " As in: ".toList, .element (sampleOf "  Scale(2);".toList), .text ['\n']]⟩]⟩,
      .element ⟨"exception".toList, .empty, .ofNodes [.text "no target".toList]⟩]

/-- Both texts of the summary and the sample are shown, in their order. -/
theorem prose_kept_of_circle :
    ∃ written, (defaultPool ⟨.lf, false⟩).dispatch describedCircle = .rendered written ∧
      written.HoldsInOrder ["A round shape.".toList, "As in:".toList,
        "\x60\x60\x60\nScale(2);\n\x60\x60\x60".toList] := by
  obtain ⟨written, rendered, holds, -⟩ := @prose_kept ⟨.lf, false⟩ describedCircle _ _
    .type rfl rfl rfl rfl
  have shown : ((reached describedCircle.content).filter fun inner => inner.way ≠ []).filterMap
      (fun inner => piece? ['\n'] inner.node) = ["A round shape.".toList, "As in:".toList,
        "\x60\x60\x60\nScale(2);\n\x60\x60\x60".toList] := by
    decide +kernel
  exact ⟨written, rendered, shown ▸ holds⟩

end Markdown

end ApiPages
