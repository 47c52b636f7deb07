import ApiPages.Proofs.ParameterLists

/-!
# The grammar of identifiers

An identifier is a kind, a colon and a path. Once the first parameter list has been dropped, the
path is made of segments with dots between them: those of the namespace, that of the declaring type
unless the member is a type itself, and the name. The relation here says so, and says for which
reason any other text is refused. Decoding gives what the relation says, for every text, so an
identifier that is written from its segments decodes to them.
-/
namespace ApiPages.Identifier

/-- What a text stands for as an identifier, or why it is none. -/
inductive ReadsAs : Text → Except IdentifierError Identifier → Prop where
  /-- There is no colon, or nothing in front of it. -/
  | kindless {raw : Text} (kindless : ':' ∉ raw ∨ raw.head? = some ':') :
      ReadsAs raw (.error (.missingKind raw))
  /-- The path has nothing behind its last dot. -/
  | nameless {kind rest path : Text} (named : kind ≠ []) (absent : ':' ∉ kind)
      (dropped : DropsList rest path) (nameless : path.afterLast '.' = []) :
      ReadsAs (kind ++ ':' :: rest) (.error (.emptyPath (kind ++ ':' :: rest)))
  /-- The path of a member other than a type is a name only. -/
  | undeclared {kind rest path : Text} (named : kind ≠ []) (absent : ':' ∉ kind)
      (dropped : DropsList rest path) (filled : path.afterLast '.' ≠ [])
      (other : kind ≠ MemberKind.type.code) (single : '.' ∉ path) :
      ReadsAs (kind ++ ':' :: rest) (.error (.missingDeclaringType (kind ++ ':' :: rest)))
  /-- The path is made of the segments of the namespace, one for the declaring type of a member
  that is not a type, and the name. -/
  | member {kind rest name : Text} {spaces declaring : List Text} (named : kind ≠ [])
      (absent : ':' ∉ kind) (segments : ∀ segment ∈ spaces ++ declaring ++ [name], '.' ∉ segment)
      (dropped : DropsList rest (Text.joinWith ['.'] (spaces ++ declaring ++ [name])))
      (filled : name ≠ [])
      (declared : declaring.length = if kind = MemberKind.type.code then 0 else 1) :
      ReadsAs (kind ++ ':' :: rest) (.ok ⟨kind, Text.joinWith ['.'] spaces, name⟩)

/-- A text has a kind in front of a colon, or it is refused for want of one. -/
theorem kindless_or_eq_append (raw : Text) :
    (':' ∉ raw ∨ raw.head? = some ':') ∨
      ∃ kind rest, kind ≠ [] ∧ ':' ∉ kind ∧ raw = kind ++ ':' :: rest := by
  cases cut : raw.cutAt ':' with
  | none => exact .inl (.inl (Text.cutAt_eq_none_iff.1 cut))
  | some sides =>
    obtain ⟨kind, rest⟩ := sides
    obtain rfl := Text.eq_of_cutAt cut
    cases kind with
    | nil => exact .inl (.inr rfl)
    | cons letter letters =>
      exact .inr ⟨_, rest, List.cons_ne_nil letter letters, Text.not_mem_of_cutAt cut, rfl⟩

/-- A path of segments stands for a member of the last one's name; of the others the last one is
left out unless the member is a type. -/
theorem ReadsAs.of_segments {kind rest name : Text} {outer : List Text} (named : kind ≠ [])
    (absent : ':' ∉ kind) (segments : ∀ segment ∈ outer ++ [name], '.' ∉ segment)
    (dropped : DropsList rest (Text.joinWith ['.'] (outer ++ [name]))) (filled : name ≠ [])
    (several : kind ≠ MemberKind.type.code → outer ≠ []) :
    ReadsAs (kind ++ ':' :: rest) (.ok ⟨kind,
      Text.joinWith ['.'] (if kind = MemberKind.type.code then outer else outer.dropLast),
      name⟩) := by
  split
  · rename_i type
    rw [← List.append_nil outer] at segments dropped
    exact .member named absent segments dropped filled (by rw [if_pos type]; rfl)
  · rename_i other
    rw [← List.dropLast_concat_getLast (several other)] at segments dropped
    exact .member named absent segments dropped filled (by rw [if_neg other]; rfl)

/-- Decoding gives what the text stands for. -/
theorem readsAs_decode (raw : Text) : ReadsAs raw (decode raw) := by
  rcases kindless_or_eq_append raw with kindless | ⟨kind, rest, named, absent, rfl⟩
  · rw [decode_of_kindless kindless]
    exact .kindless kindless
  have dropped := dropsList_withoutParameters rest
  obtain ⟨outer, pieces, alone⟩ := Text.exists_splitOn_eq '.' (withoutParameters rest)
  rw [decode_of_splitOn named absent pieces]
  by_cases nameless : (withoutParameters rest).afterLast '.' = []
  · rw [if_pos nameless]
    exact .nameless named absent dropped nameless
  by_cases undeclared : kind ≠ MemberKind.type.code ∧ outer = []
  · rw [if_neg nameless, if_neg undeclared.1, if_pos undeclared.2]
    exact .undeclared named absent dropped nameless undeclared.1 (alone.1 undeclared.2)
  · have segments := @Text.notMem_of_mem_splitOn '.' (withoutParameters rest)
    have joined : Text.joinWith ['.'] ((withoutParameters rest).splitOn '.') =
        withoutParameters rest := List.intercalate_splitOn '.'
    rw [pieces] at segments joined
    rw [← joined] at dropped
    have several : kind ≠ MemberKind.type.code → outer ≠ [] := not_and.1 undeclared
    have reads := ReadsAs.of_segments named absent segments dropped nameless several
    by_cases type : kind = MemberKind.type.code
    · rw [if_pos type] at reads
      rwa [if_neg nameless, if_pos type]
    · rw [if_neg type] at reads
      rwa [if_neg nameless, if_neg type, if_neg (several type)]

/-- What a text stands for is what it decodes to. -/
theorem ReadsAs.decode_eq {raw : Text} {result : Except IdentifierError Identifier}
    (reads : ReadsAs raw result) : decode raw = result := by
  cases reads with
  | kindless kindless => exact decode_of_kindless kindless
  | @nameless kind rest path named absent dropped nameless =>
    obtain rfl := dropsList_iff.1 dropped
    obtain ⟨outer, pieces, -⟩ := Text.exists_splitOn_eq '.' (withoutParameters rest)
    rw [decode_of_splitOn named absent pieces, if_pos nameless]
  | @undeclared kind rest path named absent dropped filled other single =>
    obtain rfl := dropsList_iff.1 dropped
    obtain ⟨outer, pieces, alone⟩ := Text.exists_splitOn_eq '.' (withoutParameters rest)
    rw [decode_of_splitOn named absent pieces, if_neg filled, if_neg other, if_pos (alone.2 single)]
  | @member kind rest name spaces declaring named absent segments dropped filled declared =>
    have pieces : (withoutParameters rest).splitOn '.' = spaces ++ declaring ++ [name] := by
      rw [dropsList_iff.1 dropped]
      exact List.splitOn_intercalate '.' segments (by simp)
    rw [decode_of_splitOn named absent pieces, if_neg filled]
    by_cases type : kind = MemberKind.type.code
    · rw [if_pos type] at declared ⊢
      rw [List.eq_nil_of_length_eq_zero declared, List.append_nil]
    · rw [if_neg type] at declared ⊢
      obtain ⟨own, rfl⟩ := List.length_eq_one_iff.1 declared
      rw [if_neg (by simp), List.dropLast_concat]

/-- A path of segments without parentheses, with parameters behind it or not, leaves the path. -/
theorem dropsList_joinWith {segments : List Text} {parameters : Option Text}
    (bare : ∀ segment ∈ segments, segment.IsBare) (inside : ∀ inner ∈ parameters, inner.IsBare) :
    DropsList (Text.joinWith ['.'] segments ++ parameterText parameters)
      (Text.joinWith ['.'] segments) :=
  dropsList_iff.2 (withoutParameters_parameterText
    ⟨Text.notMem_joinWith (by decide) fun segment listed => (bare segment listed).1,
      Text.notMem_joinWith (by decide) fun segment listed => (bare segment listed).2⟩ inside)

/-- Decoding accepts exactly the texts of the grammar, gives what they stand for, and refuses every
other text for the reason that the grammar states. In particular an identifier that is written from
a kind, segments and perhaps parameters decodes to the kind, the segments of the namespace and the
last segment as the name. -/
theorem decode_eq_iff_readsAs :
    (∀ raw result, decode raw = result ↔ ReadsAs raw result) ∧
    ∀ (kind name : Text) (outer : List Text) (parameters : Option Text), kind ≠ [] → ':' ∉ kind →
      (∀ segment ∈ outer ++ [name], '.' ∉ segment ∧ segment.IsBare) → name ≠ [] →
      (kind ≠ MemberKind.type.code → outer ≠ []) → (∀ inner ∈ parameters, inner.IsBare) →
      decode (kind ++ ':' :: (Text.joinWith ['.'] (outer ++ [name]) ++ parameterText parameters)) =
        .ok ⟨kind,
          Text.joinWith ['.'] (if kind = MemberKind.type.code then outer else outer.dropLast),
          name⟩ := by
  constructor
  · exact fun raw result =>
      ⟨fun decoded => decoded ▸ readsAs_decode raw, fun reads => reads.decode_eq⟩
  · intro kind name outer parameters named absent segments filled several inside
    have dropped := dropsList_joinWith (fun segment listed => (segments segment listed).2) inside
    have single : ∀ segment ∈ outer ++ [name], '.' ∉ segment :=
      fun segment listed => (segments segment listed).1
    exact (ReadsAs.of_segments named absent single dropped filled several).decode_eq

/-- A method of a generic type behind an empty segment, with dots in its parameters. -/
theorem decode_eq_iff_readsAs_of_method :
    let outer : List Text := ["Shapes".toList, [], "Grid`1".toList]
    let parameters : Option Text := some "System.Int32,A.B".toList
    let raw := "M:Shapes..Grid`1.Fill(System.Int32,A.B)".toList
    let method : Identifier := ⟨['M'], "Shapes.".toList, "Fill".toList⟩
    (∀ segment ∈ outer ++ ["Fill".toList], '.' ∉ segment ∧ segment.IsBare) ∧
    (∀ inner ∈ parameters, inner.IsBare) ∧
    raw = 'M' :: ':' :: (Text.joinWith ['.'] (outer ++ ["Fill".toList]) ++
      parameterText parameters) ∧
    decode raw = .ok method ∧ ReadsAs raw (.ok method) := by
  intro outer parameters raw method
  have segments : ∀ segment ∈ outer ++ ["Fill".toList], '.' ∉ segment ∧ segment.IsBare := by
    unfold Text.IsBare
    decide
  have inside : ∀ inner ∈ parameters, inner.IsBare := by
    unfold Text.IsBare
    decide
  have decoded : decode raw = .ok method :=
    decode_eq_iff_readsAs.2 ['M'] "Fill".toList outer parameters (by decide) (by decide) segments
      (by decide) (by decide) inside
  exact ⟨segments, inside, rfl, decoded, (decode_eq_iff_readsAs.1 _ _).1 decoded⟩

end ApiPages.Identifier
