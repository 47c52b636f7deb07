import ApiPages.Markdown.Reference
import ApiPages.Proofs.Decoding

/-!
# Short forms of cut references

A reference is cut at its first generic mark before its short form is taken, while a decoded
identifier is split at its dots before its name is cut. What is shown depends on the part of the
identifier in which the first mark stands: the kind, the path up to the name, the name, or the
parameter list.
-/
namespace ApiPages.Markdown

/-- The path behind the first colon. -/
theorem referencePath_append {kind : Text} (absent : ':' ∉ kind) (path : Text) :
    referencePath (kind ++ ':' :: path) = path := by
  rw [referencePath, Text.cutAt_append absent]

/-- A reference without a colon is all path. -/
theorem referencePath_of_notMem {reference : Text} (absent : ':' ∉ reference) :
    referencePath reference = reference := by
  rw [referencePath, Text.cutAt_eq_none_iff.2 absent]

/-- A path that ends in no closing parenthesis keeps its parameters. -/
theorem withoutFinalParameters_of_getLast? {path : Text} (unclosed : path.getLast? ≠ some ')') :
    withoutFinalParameters path = path := by
  induction path with
  | nil => rfl
  | cons head rest ih =>
    have behind : rest.getLast? ≠ some ')' := by
      cases rest with
      | nil => simp
      | cons next others => simpa [List.getLast?_cons_cons] using unclosed
    rw [withoutFinalParameters, if_neg fun open' => behind open'.2.1, ih behind]

/-- A text without a closing parenthesis does not end in one. -/
theorem getLast?_ne_of_notMem {text : Text} (absent : ')' ∉ text) : text.getLast? ≠ some ')' :=
  fun last => absent (List.mem_of_getLast? last)

/-- A parameter list at the end of a path is left out of the short form. -/
theorem withoutFinalParameters_append {path parameters : Text} (bare : path.IsBare)
    (listed : ParameterList parameters) : withoutFinalParameters (path ++ parameters) = path := by
  induction path with
  | nil =>
    cases listed with
    | none => rfl
    | list _ line =>
      simp only [List.nil_append, List.cons_append, withoutFinalParameters]
      rw [if_pos]
      refine ⟨trivial, by simp, ?_⟩
      simpa using line
  | cons head rest ih =>
    obtain ⟨opening, closing⟩ := bare
    simp only [List.mem_cons, not_or] at opening closing
    rw [List.cons_append, withoutFinalParameters, if_neg fun open' => opening.1 open'.1.symm,
      ih ⟨opening.2, closing.2⟩]

/-- What is left without the parameters stands in the path. -/
theorem mem_of_mem_withoutFinalParameters {path : Text} {character : Char}
    (member : character ∈ withoutFinalParameters path) : character ∈ path := by
  induction path with
  | nil => exact member
  | cons head rest ih =>
    rw [withoutFinalParameters] at member
    split at member
    · simp at member
    · rcases List.mem_cons.1 member with here | later
      · exact here ▸ List.mem_cons_self
      · exact List.mem_cons_of_mem _ (ih later)

/-- No generic mark is left in a text that has been cut at one. -/
theorem withoutArity_withoutArity (text : Text) : withoutArity (withoutArity text) =
    withoutArity text :=
  Text.before_of_notMem (Text.notMem_before genericMark text)

/-- A parameter list that is cut before its end is not closed. -/
theorem notMem_withoutArity_of_listed {parameters : Text} (listed : ParameterList parameters)
    (marked : genericMark ∈ parameters) : ')' ∉ withoutArity parameters := by
  cases listed with
  | none => simp at marked
  | @list inner bare line =>
    have inside : genericMark ∈ '(' :: inner := by
      simpa [genericMark] using marked
    rw [withoutArity, Text.before_append_of_mem inside]
    intro closing
    have open' := Text.mem_of_mem_before closing
    exact bare.2 ((List.mem_cons.1 open').resolve_left (by decide))

/-- A parameter list that holds a mark begins before it. -/
theorem withoutArity_ne_nil_of_listed {parameters : Text} (listed : ParameterList parameters)
    (marked : genericMark ∈ parameters) : withoutArity parameters ≠ [] := by
  cases listed with
  | none => simp at marked
  | list => simp [withoutArity, Text.before, genericMark]

/-- The short form of a reference whose path has no parameters to leave out. -/
theorem shortReference_of_unclosed {kind path : Text} (absent : ':' ∉ kind)
    (unclosed : path.getLast? ≠ some ')') :
    shortReference (kind ++ ':' :: path) = (withoutArity path).afterLast '.' := by
  rw [shortReference, referencePath_append absent, withoutFinalParameters_of_getLast? unclosed]

/-- The parts of an identifier as it is spelled: its kind, the path up to the name, the name and a
parameter list at the end. -/
structure Spelling where
  /-- What stands before the colon. -/
  kind : Text
  /-- The segments before the name, each with its dot. -/
  outer : Text
  /-- The last segment of the path. -/
  name : Text
  /-- The parameter list, if there is one. -/
  parameters : Text
  /-- The colon behind the kind is the first one. -/
  kind_plain : ':' ∉ kind
  /-- The path before the name ends with a dot, unless it is empty. -/
  outer_closed : outer.afterLast '.' = []
  /-- The path before the name holds no parameters. -/
  outer_bare : outer.IsBare
  /-- The name is one segment. -/
  name_plain : '.' ∉ name
  /-- The name holds no parameters. -/
  name_bare : name.IsBare
  /-- The parameters are one list. -/
  parameters_listed : ParameterList parameters

namespace Spelling

variable (spelling : Spelling)

/-- The path without parameters. -/
def path : Text := spelling.outer ++ spelling.name

/-- The text of an identifier. -/
def text : Text := spelling.kind ++ ':' :: (spelling.path ++ spelling.parameters)

/-- The path holds no parameters. -/
theorem path_bare : spelling.path.IsBare := by
  have outer := spelling.outer_bare
  have name := spelling.name_bare
  simp only [Text.IsBare, path, List.mem_append, not_or] at outer name ⊢
  exact ⟨⟨outer.1, name.1⟩, outer.2, name.2⟩

/-- What the short form of a reference shows once the reference has been cut at its first generic
mark, by the part in which that mark stands. -/
def shown : Text :=
  if genericMark ∈ spelling.kind then
    (withoutFinalParameters (withoutArity spelling.kind)).afterLast '.'
  else if genericMark ∈ spelling.outer then (withoutArity spelling.outer).afterLast '.'
  else if genericMark ∈ spelling.name then withoutArity spelling.name
  else if genericMark ∈ spelling.parameters then
    (spelling.name ++ withoutArity spelling.parameters).afterLast '.'
  else spelling.name

/-- The path before the name adds nothing to what follows the last dot. -/
theorem afterLast_outer_append (rest : Text) :
    (spelling.outer ++ rest).afterLast '.' = rest.afterLast '.' := by
  by_cases dotted : '.' ∈ rest
  · exact Text.afterLast_append_of_mem _ dotted
  · rw [Text.afterLast_append_of_notMem _ dotted, spelling.outer_closed,
      Text.afterLast_of_notMem dotted, List.nil_append]

/-- A mark in the kind hides everything behind it, the colon too. -/
theorem short_of_mark_in_kind (marked : genericMark ∈ spelling.kind) :
    shortReference (withoutArity spelling.text) =
      (withoutFinalParameters (withoutArity spelling.kind)).afterLast '.' := by
  have cut : withoutArity spelling.text = withoutArity spelling.kind :=
    Text.before_append_of_mem marked _
  have absent : ':' ∉ withoutArity spelling.kind :=
    fun member => spelling.kind_plain (Text.mem_of_mem_before member)
  have unmarked : genericMark ∉ withoutFinalParameters (withoutArity spelling.kind) :=
    fun member => Text.notMem_before genericMark spelling.kind
      (mem_of_mem_withoutFinalParameters member)
  rw [cut, shortReference, referencePath_of_notMem absent]
  rw [show withoutArity (withoutFinalParameters (withoutArity spelling.kind)) =
    withoutFinalParameters (withoutArity spelling.kind) from Text.before_of_notMem unmarked]

/-- A cut behind the colon leaves the kind whole. -/
theorem withoutArity_text (unmarked : genericMark ∉ spelling.kind) :
    withoutArity spelling.text =
      spelling.kind ++ ':' :: withoutArity (spelling.path ++ spelling.parameters) := by
  have plain : genericMark ∉ spelling.kind ++ [':'] := by
    simpa [genericMark] using unmarked
  have cut := Text.before_append_of_notMem plain (spelling.path ++ spelling.parameters)
  simpa [withoutArity, text] using cut

/-- A mark behind the colon ends the path that is shown, unless it is closed by then. -/
theorem short_of_unclosed (unmarked : genericMark ∉ spelling.kind)
    (unclosed : ')' ∉ withoutArity (spelling.path ++ spelling.parameters)) :
    shortReference (withoutArity spelling.text) =
      (withoutArity (spelling.path ++ spelling.parameters)).afterLast '.' := by
  rw [withoutArity_text spelling unmarked,
    shortReference_of_unclosed spelling.kind_plain (getLast?_ne_of_notMem unclosed),
    withoutArity_withoutArity]

/-- A mark in the path before the name hides the name. -/
theorem short_of_mark_in_outer (unmarked : genericMark ∉ spelling.kind)
    (marked : genericMark ∈ spelling.outer) :
    shortReference (withoutArity spelling.text) =
      (withoutArity spelling.outer).afterLast '.' := by
  have cut : withoutArity (spelling.path ++ spelling.parameters) =
      withoutArity spelling.outer := by
    rw [path, List.append_assoc]
    exact Text.before_append_of_mem marked _
  have unclosed : ')' ∉ withoutArity (spelling.path ++ spelling.parameters) := by
    rw [cut]
    exact fun member => spelling.outer_bare.2 (Text.mem_of_mem_before member)
  rw [short_of_unclosed spelling unmarked unclosed, cut]

/-- A mark in the name is where the decoded name is cut, too. -/
theorem short_of_mark_in_name (unmarked : genericMark ∉ spelling.kind)
    (plain : genericMark ∉ spelling.outer) (marked : genericMark ∈ spelling.name) :
    shortReference (withoutArity spelling.text) = withoutArity spelling.name := by
  have cut : withoutArity (spelling.path ++ spelling.parameters) =
      spelling.outer ++ withoutArity spelling.name := by
    rw [path, List.append_assoc, withoutArity, Text.before_append_of_notMem plain,
      Text.before_append_of_mem marked, withoutArity]
  have unclosed : ')' ∉ withoutArity (spelling.path ++ spelling.parameters) := by
    rw [cut, List.mem_append]
    rintro (outer | name)
    · exact spelling.outer_bare.2 outer
    · exact spelling.name_bare.2 (Text.mem_of_mem_before name)
  have dotless : '.' ∉ withoutArity spelling.name :=
    fun member => spelling.name_plain (Text.mem_of_mem_before member)
  rw [short_of_unclosed spelling unmarked unclosed, cut, afterLast_outer_append,
    Text.afterLast_of_notMem dotless]

/-- A mark in the parameters alone leaves what precedes it in the list behind the name. -/
theorem short_of_mark_in_parameters (unmarked : genericMark ∉ spelling.kind)
    (plain : genericMark ∉ spelling.outer) (nameless : genericMark ∉ spelling.name)
    (marked : genericMark ∈ spelling.parameters) :
    shortReference (withoutArity spelling.text) =
      (spelling.name ++ withoutArity spelling.parameters).afterLast '.' := by
  have cut : withoutArity (spelling.path ++ spelling.parameters) =
      spelling.outer ++ (spelling.name ++ withoutArity spelling.parameters) := by
    rw [path, List.append_assoc, withoutArity, Text.before_append_of_notMem plain,
      Text.before_append_of_notMem nameless, withoutArity]
  have unclosed : ')' ∉ withoutArity (spelling.path ++ spelling.parameters) := by
    rw [cut, List.mem_append, List.mem_append]
    rintro (outer | name | parameters)
    · exact spelling.outer_bare.2 outer
    · exact spelling.name_bare.2 name
    · exact notMem_withoutArity_of_listed spelling.parameters_listed marked parameters
  rw [short_of_unclosed spelling unmarked unclosed, cut, afterLast_outer_append]

/-- Without a mark the parameters are dropped as they are in decoding. -/
theorem short_of_unmarked (unmarked : genericMark ∉ spelling.text) :
    shortReference (withoutArity spelling.text) = spelling.name := by
  have whole : withoutArity spelling.text = spelling.text := Text.before_of_notMem unmarked
  have plain : genericMark ∉ spelling.path := by
    intro member
    apply unmarked
    simp [text, member]
  have path : withoutArity spelling.path = spelling.path := Text.before_of_notMem plain
  rw [whole, shortReference, text, referencePath_append spelling.kind_plain,
    withoutFinalParameters_append spelling.path_bare spelling.parameters_listed, path,
    Spelling.path, afterLast_outer_append, Text.afterLast_of_notMem spelling.name_plain]

/-- A reference that has been cut at its first mark shows what the place of that mark decides. -/
theorem shortReference_cut : shortReference (withoutArity spelling.text) = spelling.shown := by
  rw [shown]
  by_cases kind : genericMark ∈ spelling.kind
  · rw [if_pos kind, short_of_mark_in_kind spelling kind]
  rw [if_neg kind]
  by_cases outer : genericMark ∈ spelling.outer
  · rw [if_pos outer, short_of_mark_in_outer spelling kind outer]
  rw [if_neg outer]
  by_cases name : genericMark ∈ spelling.name
  · rw [if_pos name, short_of_mark_in_name spelling kind outer name]
  rw [if_neg name]
  by_cases parameters : genericMark ∈ spelling.parameters
  · rw [if_pos parameters, short_of_mark_in_parameters spelling kind outer name parameters]
  rw [if_neg parameters]
  apply short_of_unmarked
  have colon : genericMark ≠ ':' := by decide
  simp [text, path, kind, outer, name, parameters, colon]

/-- When a reference that has been cut at its first mark still shows the name without its mark: the
first mark stands in the name, or there is none, or what precedes it happens to be spelled like the
name. -/
def KeepsName : Prop :=
  if genericMark ∈ spelling.kind then
    (withoutFinalParameters (withoutArity spelling.kind)).afterLast '.' =
      withoutArity spelling.name
  else if genericMark ∈ spelling.outer then
    (withoutArity spelling.outer).afterLast '.' = withoutArity spelling.name
  else
    genericMark ∈ spelling.name ∨ genericMark ∉ spelling.parameters ∨
      '.' ∈ withoutArity spelling.parameters ∧
        (withoutArity spelling.parameters).afterLast '.' = spelling.name

/-- What is shown is the name without its mark exactly when the first mark keeps it. -/
theorem shown_eq_iff : spelling.shown = withoutArity spelling.name ↔ spelling.KeepsName := by
  rw [shown, KeepsName]
  by_cases kind : genericMark ∈ spelling.kind
  · rw [if_pos kind, if_pos kind]
  rw [if_neg kind, if_neg kind]
  by_cases outer : genericMark ∈ spelling.outer
  · rw [if_pos outer, if_pos outer]
  rw [if_neg outer, if_neg outer]
  by_cases name : genericMark ∈ spelling.name
  · simp [name]
  have whole : withoutArity spelling.name = spelling.name := Text.before_of_notMem name
  rw [if_neg name, whole]
  by_cases parameters : genericMark ∈ spelling.parameters
  · simp only [name, parameters, not_true, false_or]
    by_cases dotted : '.' ∈ withoutArity spelling.parameters
    · rw [Text.afterLast_append_of_mem _ dotted]
      simp [dotted]
    · have begun := withoutArity_ne_nil_of_listed spelling.parameters_listed parameters
      rw [Text.afterLast_append_of_notMem _ dotted, Text.afterLast_of_notMem spelling.name_plain]
      simp [dotted, begun]
  · simp [parameters]

end Spelling

/-- Every identifier that can be decoded and holds at most one parameter list, at its end, has a
spelling, in which the name is the decoded one. -/
theorem exists_spelling {kind path parameters : Text} {identifier : Identifier}
    (absent : ':' ∉ kind) (bare : path.IsBare) (listed : ParameterList parameters)
    (decoded : Identifier.decode (kind ++ ':' :: (path ++ parameters)) = .ok identifier) :
    ∃ spelling : Spelling, spelling.kind = kind ∧ spelling.path = path ∧
      spelling.parameters = parameters ∧ spelling.name = identifier.name := by
  obtain ⟨-, named, -⟩ := Identifier.decode_parts absent decoded
  rw [Identifier.withoutParameters_append bare listed] at named
  have split : ∃ outer, path = outer ++ identifier.name ∧ outer.afterLast '.' = [] := by
    by_cases dotted : '.' ∈ path
    · obtain ⟨front, split⟩ := Text.exists_eq_append_afterLast dotted
      refine ⟨front ++ ['.'], ?_, ?_⟩
      · rw [named]
        simpa using split
      · rw [Text.afterLast_append_of_mem _ (by simp)]
        simp [Text.afterLast]
    · exact ⟨[], by simp [named, Text.afterLast_of_notMem dotted], rfl⟩
  obtain ⟨outer, rfl, closed⟩ := split
  simp only [Text.IsBare, List.mem_append, not_or] at bare
  exact ⟨⟨kind, outer, identifier.name, parameters, absent, closed,
    ⟨bare.1.1, bare.2.1⟩, named ▸ Text.notMem_afterLast '.' _, ⟨bare.1.2, bare.2.2⟩, listed⟩,
    rfl, rfl, rfl, rfl⟩

end ApiPages.Markdown
