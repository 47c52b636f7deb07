import ApiPages.Proofs.Dictionaries
import ApiPages.Proofs.SpelledContent
import ApiPages.Xml.Scope

/-!
# Trees of lexemes that were read back

The lexemes of an element nest into its tree whatever follows them, and the tree resolves to the
element: no qualifier needs a declaration, attributes come back in ascending order, and the pieces
of a text are joined, but never over a gap.
-/
namespace ApiPages.Xml

open Markup

/-! ### Attributes -/

/-- An attribute without a qualifier is in no namespace. -/
theorem mapM_attributeSpace? (entries : List (Text × Text)) :
    (plainAttributes entries).mapM
      (fun entry => (attributeSpace? [] entry.1).map (·, entry.1.base)) =
        some (entries.map fun entry => (none, entry.1)) := by
  have unqualified : ([] : Text) ≠ reserved := by decide
  induction entries with
  | nil => rfl
  | cons entry entries ih =>
    rw [plainAttributes] at ih ⊢
    rw [List.map_cons, List.mapM_cons, ih, attributeSpace?, if_neg unqualified, if_pos rfl]
    rfl

/-- Attributes without qualifiers, none of which is a declaration, are those of the element. -/
theorem enter?_plainAttributes {attributes : Dict Text} {written : List (Text × Text)}
    (writable : WritableAttributes attributes) (order : written.Perm attributes.entries) :
    enter? [] (plainAttributes written) = some ([], plainAttributes written) := by
  have undeclared : ∀ entry ∈ plainAttributes written, isDeclaration entry.1 = false := by
    rw [plainAttributes, List.forall_mem_map]
    intro entry listed
    obtain ⟨-, other, -⟩ := writable entry (order.mem_iff.1 listed)
    have unqualified : ([] : Text) ≠ declaration := by decide
    simp [isDeclaration, unqualified, show entry.1 ≠ declaration from other]
  have nothing : (plainAttributes written).filter (fun entry => isDeclaration entry.1) = [] :=
    List.filter_eq_nil_iff.2 fun entry listed => by simp [undeclared entry listed]
  have all : (plainAttributes written).filter (fun entry => !isDeclaration entry.1) =
      plainAttributes written :=
    List.filter_eq_self.2 fun entry listed => by simp [undeclared entry listed]
  have distinct : (written.map fun entry => ((none : Option Text), entry.1)).Nodup := by
    have keys : (written.map (·.1)).Nodup := (order.map _).nodup_iff.2 attributes.nodup_keys
    refine .of_map Prod.snd ?_
    rwa [List.map_map]
  rw [enter?, nothing, all]
  simp only [declareFrom, Option.bind_eq_bind, Option.bind_some, List.nil_append,
    distinctAttributes, mapM_attributeSpace?, distinct, decide_true, if_true]

/-- Attributes without qualifiers make the attributes of the element. -/
theorem ofList_plainAttributes {attributes : Dict Text} {written : List (Text × Text)}
    (order : written.Perm attributes.entries) :
    Dict.ofList ((plainAttributes written).map fun entry => (entry.1.base, entry.2)) =
      attributes := by
  have same : (plainAttributes written).map (fun entry => (entry.1.base, entry.2)) = written := by
    simp [plainAttributes, Function.comp_def]
  rw [same, Dict.ofList_of_perm order]

/-! ### Texts -/

/-- Texts in front of a row. -/
def textsBefore (pieces : List Text) (row : Markup) : Markup := pieces.foldr .text row

/-- Texts in front of lexemes that nest are put in front of their row. -/
theorem nestAll_texts (pieces : List Text) {rest : List PlainLexeme} {nesting : Nesting}
    (nested : nestAll [] rest = some nesting) :
    nestAll [] (pieces.map .text ++ rest) =
      some { nesting with row := textsBefore pieces nesting.row } := by
  induction pieces with
  | nil => exact nested
  | cons piece others ih =>
    rw [List.map_cons, List.cons_append, nestAll, ih]
    rfl

/-- A row that keeps a text in front of it apart: it begins with a gap or with no text. -/
def KeepsApart (apart : Bool) (content : Content) : Prop :=
  apart = true ∨ ∀ own rest, content ≠ .text own rest

/-- The pieces of a text become one text node. -/
theorem resolveRow_texts {pieces : List Text} (filled : pieces ≠ []) {row : Markup} {apart : Bool}
    {content : Content} (resolved : resolveRow [] row = some (apart, content))
    (keeps : KeepsApart apart content) :
    resolveRow [] (textsBefore pieces row) = some (false, .text pieces.flatten content) := by
  induction pieces with
  | nil => exact absurd rfl filled
  | cons piece others ih =>
    cases others with
    | nil =>
      rw [textsBefore, List.foldr_cons, List.foldr_nil, resolveRow, resolved]
      rcases keeps with rfl | other
      · simp
      · have alone : prependText piece content = .text piece content := by
          cases content with
          | text own rest => exact absurd rfl (other own rest)
          | nil | element => rfl
        simp [alone]
    | cons next others =>
      have later := ih (List.cons_ne_nil _ _)
      rw [textsBefore] at later
      rw [textsBefore, List.foldr_cons, resolveRow, later]
      rfl

/-! ### Elements and rows -/

/-- The tree of the lexemes of an element: in front of anything that nests they put an element that
resolves to it. -/
structure NestsElement (element : Element) (lexemes : List PlainLexeme) (content : Markup)
    (attributes : List (QualifiedName × Text)) : Prop where
  /-- They put the element in front of a row. -/
  nests : ∀ rest nesting, nestAll [] rest = some nesting → nestAll [] (lexemes ++ rest) =
    some { nesting with row := .element ⟨[], element.name⟩ attributes content nesting.row }
  /-- Its attributes need no declaration. -/
  enters : enter? [] attributes = some ([], attributes)
  /-- They are those of the element. -/
  attributes : Dict.ofList (attributes.map fun entry => (entry.1.base, entry.2)) =
    element.attributes
  /-- Its row is that of the element. -/
  resolves : ∃ apart, resolveRow [] content = some (apart, element.content)

/-- The tree of the lexemes of a row: at the end of an element they make a row that resolves to
it. -/
structure NestsRow (afterText : Bool) (content : Content) (lexemes : List PlainLexeme)
    (row : Markup) : Prop where
  /-- They make the row. -/
  nests : ∀ rest around, nestAll [] rest = some ⟨.nil, around⟩ →
    nestAll [] (lexemes ++ rest) = some ⟨row, around⟩
  /-- It resolves to the content, and behind a text it does not begin with another one. -/
  resolves : ∃ apart, resolveRow [] row = some (apart, content) ∧
    (afterText = true → KeepsApart apart content)

/-- The lexemes of a part of a tree that can be written nest into it. -/
def Part.IsNested : Part → List PlainLexeme → Prop
  | .element own, lexemes =>
    WritableElement own → ∃ content attributes, NestsElement own lexemes content attributes
  | .row afterText content, lexemes =>
    WritableContent content → ∃ row, NestsRow afterText content lexemes row

/-- The lexemes of an element between two tags nest into it if those of its row do. -/
theorem exists_nestsElement {name : Text} {attributes : Dict Text} {content : Content}
    {written : List (Text × Text)} {inner : List PlainLexeme} {row : Markup}
    (order : written.Perm attributes.entries)
    (writable : WritableElement ⟨name, attributes, content⟩)
    (nested : NestsRow false content inner row) :
    NestsElement ⟨name, attributes, content⟩
      (.opening ⟨[], name⟩ (plainAttributes written) false :: inner ++ [.closing ⟨[], name⟩])
      row (plainAttributes written) where
  nests rest nesting found := by
    have closed : nestAll [] (.closing ⟨[], name⟩ :: rest) =
        some ⟨.nil, (⟨[], name⟩, nesting.row) :: nesting.around⟩ := by
      rw [nestAll, found]
      rfl
    have whole : .opening ⟨[], name⟩ (plainAttributes written) false :: inner ++
        [.closing ⟨[], name⟩] ++ rest = .opening ⟨[], name⟩ (plainAttributes written) false ::
          (inner ++ .closing ⟨[], name⟩ :: rest) := by simp
    rw [whole, nestAll, nested.nests _ _ closed, Option.bind_some, List.nil_append]
    exact if_pos rfl
  enters := enter?_plainAttributes writable.2.1 order
  attributes := ofList_plainAttributes order
  resolves := by
    obtain ⟨apart, resolved, -⟩ := nested.resolves
    exact ⟨apart, resolved⟩

/-- The lexemes of every part of a tree that can be written nest into it. -/
theorem Lexed.isNested {part : Part} {lexemes : List PlainLexeme} (lexed : Lexed part lexemes) :
    part.IsNested lexemes := by
  induction lexed with
  | @closed name attributes written order =>
    intro writable
    refine ⟨.nil, plainAttributes written, fun rest nesting found => ?_,
      enter?_plainAttributes writable.2.1 order, ofList_plainAttributes order, false, rfl⟩
    rw [List.cons_append, List.nil_append, nestAll, found]
    rfl
  | opened order row ih =>
    intro writable
    obtain ⟨markup, nested⟩ := ih writable.2.2
    exact ⟨markup, _, exists_nestsElement order writable nested⟩
  | nil => exact fun _ => ⟨.nil, fun _ _ found => found, false, rfl, fun _ => .inr nofun⟩
  | @gap afterText content lexemes rest ih =>
    intro writable
    obtain ⟨row, nested⟩ := ih writable
    obtain ⟨apart, resolved, -⟩ := nested.resolves
    refine ⟨.gap row, fun rest around found => ?_, true, ?_, fun _ => .inl rfl⟩
    · rw [List.cons_append, nestAll, nested.nests rest around found]
      rfl
    · rw [resolveRow, resolved]
      rfl
  | @text pieces content lexemes filled rest ih =>
    rintro ⟨-, -, others⟩
    obtain ⟨row, nested⟩ := ih others
    obtain ⟨apart, resolved, keeps⟩ := nested.resolves
    have broken : pieces ≠ [] := by
      rintro rfl
      exact filled rfl
    refine ⟨textsBefore pieces row, fun rest around found => ?_, false,
      resolveRow_texts broken resolved (keeps rfl), nofun⟩
    rw [List.append_assoc, nestAll_texts pieces (nested.nests rest around found)]
  | @child afterText name attributes content rest own lexemes first others ihFirst ih =>
    rintro ⟨plain, values, inside, behind⟩
    obtain ⟨markup, raws, nested⟩ := ihFirst ⟨plain, values, inside⟩
    obtain ⟨row, after⟩ := ih behind
    obtain ⟨apart, resolved⟩ := nested.resolves
    obtain ⟨apart', resolved', -⟩ := after.resolves
    refine ⟨.element ⟨[], name⟩ raws markup row, fun rest around found => ?_, false, ?_,
      fun _ => .inr nofun⟩
    · rw [List.append_assoc, nested.nests _ _ (after.nests rest around found)]
    · have admitted : admitsElement [] ⟨[], name⟩ = true := rfl
      have same := nested.attributes
      simp only [resolveRow, nested.enters, resolved, resolved', Option.bind_eq_bind,
        Option.bind_some, admitted, if_true, same]

/-- The lexemes of an element that can be written nest and resolve to it alone. -/
theorem Lexed.resolves {element : Element} {lexemes : List PlainLexeme}
    (lexed : Lexed (.element element) lexemes) (writable : WritableElement element) :
    (nest? lexemes).bind resolve =
      some (.element element.name element.attributes element.content .nil) := by
  obtain ⟨content, attributes, nested⟩ := lexed.isNested writable
  obtain ⟨apart, resolved⟩ := nested.resolves
  have whole := nested.nests [] ⟨.nil, []⟩ rfl
  rw [List.append_nil] at whole
  have admitted : admitsElement [] ⟨[], element.name⟩ = true := rfl
  simp only [nest?, whole, resolve, resolveRow, nested.enters, resolved, admitted,
    nested.attributes, Option.bind_eq_bind, Option.bind_some, List.isEmpty_nil, if_true,
    Option.map_some]

end ApiPages.Xml
