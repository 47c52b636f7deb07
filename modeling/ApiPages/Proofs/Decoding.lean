import ApiPages.Identifier
import ApiPages.Proofs.Cutting

/-!
# Decoded identifiers

A parameter list at the end of a path is what decoding drops, and the name of a decoded identifier
is what stands after the last dot of the path that is left.
-/
namespace ApiPages

/-- A text that holds no parenthesis. -/
def Text.IsBare (text : Text) : Prop := '(' ∉ text ∧ ')' ∉ text

/-- Nothing, or one list in parentheses that holds no other one and stays on a line. -/
inductive ParameterList : Text → Prop where
  /-- No list. -/
  | none : ParameterList []
  /-- The list of the parameters between two parentheses. -/
  | list {inner : Text} (bare : inner.IsBare) (line : '\n' ∉ inner) :
      ParameterList ('(' :: inner ++ [')'])

namespace Identifier

/-- The list that is open ends at the first closing parenthesis. -/
theorem afterClosing_append {inner : Text} (bare : inner.IsBare) (rest : Text) :
    afterClosing (inner ++ ')' :: rest) = some rest := by
  induction inner with
  | nil => simp [afterClosing]
  | cons head others ih =>
    obtain ⟨opening, closing⟩ := bare
    simp only [List.mem_cons, not_or] at opening closing
    simp [afterClosing, Ne.symm opening.1, Ne.symm closing.1, ih ⟨opening.2, closing.2⟩]

/-- The text that an identifier carries for its parameters: nothing, or the parameters between two
parentheses. -/
def parameterText : Option Text → Text
  | none => []
  | some inner => '(' :: inner ++ [')']

/-- Parameters behind a path without parentheses are dropped. -/
theorem withoutParameters_parameterText {path : Text} {parameters : Option Text}
    (bare : path.IsBare) (inside : ∀ inner ∈ parameters, inner.IsBare) :
    withoutParameters (path ++ parameterText parameters) = path := by
  induction path with
  | nil =>
    cases parameters with
    | none => rfl
    | some inner =>
      simp [parameterText, withoutParameters, afterClosing_append (inside inner rfl)]
  | cons head rest ih =>
    obtain ⟨opening, closing⟩ := bare
    simp only [List.mem_cons, not_or] at opening closing
    simp [withoutParameters, Ne.symm opening.1, ih ⟨opening.2, closing.2⟩]

/-- A path without parentheses has no parameters to drop. -/
theorem withoutParameters_of_bare {path : Text} (bare : path.IsBare) :
    withoutParameters path = path := by
  have dropped : withoutParameters (path ++ parameterText none) = path :=
    withoutParameters_parameterText bare nofun
  rwa [parameterText, List.append_nil] at dropped

/-- A path without parentheses has no parameters to drop, and a list at its end is dropped. -/
theorem withoutParameters_append {path parameters : Text} (bare : path.IsBare)
    (listed : ParameterList parameters) : withoutParameters (path ++ parameters) = path := by
  cases listed with
  | none => rw [List.append_nil, withoutParameters_of_bare bare]
  | @list inner inside _ =>
    have dropped : withoutParameters (path ++ parameterText (some inner)) = path :=
      withoutParameters_parameterText bare fun _ own => Option.some.inj own ▸ inside
    exact dropped

/-- An identifier without a colon, or with nothing before it, has no kind. -/
theorem decode_of_kindless {raw : Text} (kindless : ':' ∉ raw ∨ raw.head? = some ':') :
    decode raw = .error (.missingKind raw) := by
  rcases kindless with absent | opening
  · rw [decode, Text.cutAt_eq_none_iff.2 absent]
  · obtain ⟨rest, rfl⟩ := List.head?_eq_some_iff.1 opening
    rfl

/-- What an identifier with a kind decodes to, by the last piece of its path and those before it. -/
theorem decode_of_splitOn {kind path name : Text} {outer : List Text} (named : kind ≠ [])
    (absent : ':' ∉ kind) (pieces : (withoutParameters path).splitOn '.' = outer ++ [name]) :
    decode (kind ++ ':' :: path) =
      if name = [] then .error (.emptyPath (kind ++ ':' :: path))
      else if kind = MemberKind.type.code then .ok ⟨kind, Text.joinWith ['.'] outer, name⟩
      else if outer = [] then .error (.missingDeclaringType (kind ++ ':' :: path))
      else .ok ⟨kind, Text.joinWith ['.'] outer.dropLast, name⟩ := by
  obtain ⟨letter, letters, rfl⟩ := List.exists_cons_of_ne_nil named
  have reversed : ((withoutParameters path).splitOn '.').reverse = name :: outer.reverse := by
    simp [pieces]
  rw [decode, Text.cutAt_append absent]
  simp only [reversed]
  cases name with
  | nil => rfl
  | cons head rest =>
    rw [if_neg (List.cons_ne_nil head rest)]
    rcases List.eq_nil_or_concat outer with rfl | ⟨spaces, declaring, rfl⟩ <;> simp

/-- The kind of a decoded identifier stands before the colon, and its name, which is not empty,
after the last dot of the path without parameters. -/
theorem decode_parts {kind path : Text} {identifier : Identifier} (absent : ':' ∉ kind)
    (decoded : decode (kind ++ ':' :: path) = .ok identifier) :
    identifier.kind = kind ∧ identifier.name = (withoutParameters path).afterLast '.' ∧
      identifier.name ≠ [] := by
  by_cases named : kind = []
  · rw [named, List.nil_append, decode_of_kindless (.inr rfl)] at decoded
    cases decoded
  obtain ⟨outer, pieces, -⟩ := Text.exists_splitOn_eq '.' (withoutParameters path)
  rw [decode_of_splitOn named absent pieces] at decoded
  split at decoded
  · cases decoded
  rename_i filled
  split at decoded
  · obtain rfl := Except.ok.inj decoded
    exact ⟨rfl, rfl, filled⟩
  split at decoded
  · cases decoded
  · obtain rfl := Except.ok.inj decoded
    exact ⟨rfl, rfl, filled⟩

/-- The name of a decoded type is the last piece of its path between the dots, and the pieces before
it make up its namespace. -/
theorem exists_pieces_of_decode {path : Text} {type : Identifier}
    (decoded : decode (MemberKind.type.code ++ ':' :: path) = .ok type) :
    ∃ outer, (withoutParameters path).splitOn '.' = outer ++ [type.name] ∧
      type.space = Text.joinWith ['.'] outer := by
  obtain ⟨outer, pieces, -⟩ := Text.exists_splitOn_eq '.' (withoutParameters path)
  rw [decode_of_splitOn (by decide) (by decide) pieces, if_pos rfl] at decoded
  split at decoded
  · cases decoded
  · obtain rfl := Except.ok.inj decoded
    exact ⟨outer, pieces, rfl⟩

/-- What the identifier of a member other than a type decodes to: the last piece of its path is the
name, and the one before it belongs to the declaring type. -/
theorem decode_of_pieces {kind path declaring name : Text} {outer : List Text} (named : kind ≠ [])
    (absent : ':' ∉ kind) (other : kind ≠ MemberKind.type.code) (filled : name ≠ [])
    (pieces : (withoutParameters path).splitOn '.' = outer ++ [declaring, name]) :
    decode (kind ++ ':' :: path) = .ok ⟨kind, Text.joinWith ['.'] outer, name⟩ := by
  have last : (withoutParameters path).splitOn '.' = (outer ++ [declaring]) ++ [name] := by
    rw [pieces, List.append_assoc, List.singleton_append]
  rw [decode_of_splitOn named absent last, if_neg filled, if_neg other, if_neg (by simp),
    List.dropLast_concat]

end Identifier

end ApiPages
