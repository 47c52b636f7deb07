import ApiPages.Proofs.SpelledLexemes

/-!
# Reading content back

The lexemes of a row are read one after the other, up to the markup behind the row. What is left of
the way the row was written is how its texts are cut, where gaps stand and in which order attributes
come.
-/
namespace ApiPages.Xml

/-- The resolved lexemes of a part of a tree. -/
inductive Lexed : Part → List PlainLexeme → Prop where
  /-- An element in a single tag. -/
  | closed {name : Text} {attributes : Dict Text} {written : List (Text × Text)}
      (order : written.Perm attributes.entries) :
      Lexed (.element ⟨name, attributes, .nil⟩)
        [.opening ⟨[], name⟩ (plainAttributes written) true]
  /-- An element between two tags. -/
  | opened {name : Text} {attributes : Dict Text} {written : List (Text × Text)}
      {content : Content} {inner : List PlainLexeme} (order : written.Perm attributes.entries)
      (row : Lexed (.row false content) inner) :
      Lexed (.element ⟨name, attributes, content⟩)
        (.opening ⟨[], name⟩ (plainAttributes written) false :: inner ++ [.closing ⟨[], name⟩])
  /-- The end of a row. -/
  | nil {afterText : Bool} : Lexed (.row afterText .nil) []
  /-- A gap before the rest of a row. -/
  | gap {afterText : Bool} {content : Content} {lexemes : List PlainLexeme}
      (rest : Lexed (.row false content) lexemes) : Lexed (.row afterText content) (.gap :: lexemes)
  /-- The pieces of a text before the rest of a row. -/
  | text {pieces : List Text} {content : Content} {lexemes : List PlainLexeme}
      (filled : pieces.flatten ≠ []) (rest : Lexed (.row true content) lexemes) :
      Lexed (.row false (.text pieces.flatten content)) (pieces.map .text ++ lexemes)
  /-- An element before the rest of a row. -/
  | child {afterText : Bool} {name : Text} {attributes : Dict Text} {content rest : Content}
      {own lexemes : List PlainLexeme} (first : Lexed (.element ⟨name, attributes, content⟩) own)
      (others : Lexed (.row false rest) lexemes) :
      Lexed (.row afterText (.element name attributes content rest)) (own ++ lexemes)

/-! ### Rows of lexemes -/

namespace Lexeme

/-- Lexemes that are read of a text wherever what follows it fits. They leave as many elements open
as they found. -/
def Takes (fits : Text → Prop) (source : Text) (raws : List RawLexeme) : Prop :=
  ∀ before rest, fits rest → takeContent before (source ++ rest) =
    (takeContent before rest).map fun (lexemes, rest) => (raws ++ lexemes, rest)

namespace Takes

variable {fits : Text → Prop} {source following : Text} {raws others : List RawLexeme}

/-- No lexemes are read of no text. -/
theorem nil : Takes fits [] [] := by
  intro before rest _
  simp

/-- A lexeme that leaves as many elements open as it found is read as a row of one. -/
theorem single {raw : RawLexeme} (level : ∀ before, raw.openAfter before = some before)
    (taken : ∀ rest, fits rest → take (source ++ rest) = some (raw, rest)) :
    Takes fits source [raw] :=
  fun before rest fit => takeContent_cons (taken rest fit) (level before)

/-- One text after another, where the second one fits behind the first. -/
theorem append (first : Takes fits source raws) (second : Takes AtMarkup following others)
    (fitting : ∀ rest, AtMarkup rest → fits (following ++ rest)) :
    Takes AtMarkup (source ++ following) (raws ++ others) := by
  intro before rest markup
  rw [List.append_assoc, first before _ (fitting rest markup), second before rest markup,
    Option.map_map]
  simp [Function.comp_def]

end Takes

/-- Anything may follow. -/
def Anything (_ : Text) : Prop := True

end Lexeme

open Lexeme

/-- A gap is read as one lexeme, whatever follows it. -/
theorem SpellsGap.takes {source : Text} (gap : SpellsGap source) :
    Takes Anything source [.gap] :=
  .single (fun _ => rfl) fun rest _ => gap.take_eq rest

/-- What is read of a text that is cut in some way. -/
theorem SpellsText.exists_takes {afterRun : Bool} {own source : Text}
    (spelled : SpellsText afterRun own source) (writable : IsWritable own) :
    ∃ (raws : List RawLexeme) (pieces : List Text), pieces.flatten = own ∧
      Expands raws (pieces.map .text) ∧ Takes AtMarkup source raws ∧
      (afterRun = true → ∀ rest, AtMarkup rest → AtMarkup (source ++ rest)) := by
  induction spelled with
  | nil => exact ⟨[], [], rfl, .nil, .nil, fun _ _ markup => markup⟩
  | @run own source text following filled spelled absent rest ih =>
    obtain ⟨front, back⟩ := List.forall_mem_append.1 writable
    obtain ⟨glyphs, shown, taken⟩ := exists_run filled spelled absent front
    obtain ⟨raws, pieces, rfl, expands, takes, fitting⟩ := ih back
    have first : Takes AtMarkup source [.text (.run glyphs)] := .single (fun _ => rfl) taken
    have characters : (own.map fun character => [character]).flatten = own := by
      rw [← List.flatMap_def, List.flatMap_singleton']
    refine ⟨[.text (.run glyphs)] ++ raws, own.map (fun character => [character]) ++ pieces, ?_, ?_,
      first.append takes (fitting rfl), nofun⟩
    · rw [List.flatten_append, characters]
    · rw [List.map_append]
      exact (Expands.run shown).append expands
  | @verbatim afterRun own text following noReturn absent rest ih =>
    obtain ⟨front, back⟩ := List.forall_mem_append.1 writable
    obtain ⟨raws, pieces, rfl, expands, takes, -⟩ := ih back
    have first : Takes Anything ("<![CDATA[".toList ++ own ++ "]]>".toList)
        [.text (.verbatim own)] :=
      .single (fun _ => rfl) fun rest _ => take_verbatim front absent rest
    have same : Expands [.text (.verbatim own)] [.text own] := by
      refine .single fun entities expandEntity => ?_
      rw [expandLexeme, settleVerbatim_eq noReturn]
      exact Counted.gives_pure _
    refine ⟨[.text (.verbatim own)] ++ raws, [own] ++ pieces, by simp, ?_,
      first.append takes (fun _ _ => trivial), fun _ rest _ => AtMarkup.cons _⟩
    rw [List.map_append]
    exact same.append expands

/-! ### Elements and rows -/

/-- What is read of an element: its lexemes, wherever it stands. -/
structure ReadsElement (element : Element) (source : Text) (raws : List RawLexeme)
    (plains : List PlainLexeme) : Prop where
  /-- They are those of the element. -/
  lexed : Lexed (.element element) plains
  /-- Their references are resolved. -/
  expands : Expands raws plains
  /-- They are read in a row. -/
  takes : Takes Anything source raws
  /-- They are read as a root. -/
  root : ∀ rest, takeRoot (source ++ rest) = some (raws, rest)
  /-- They begin with markup. -/
  markup : ∀ rest, AtMarkup (source ++ rest)

/-- What is read of a row before markup. -/
structure ReadsRow (afterText : Bool) (content : Content) (source : Text) (raws : List RawLexeme)
    (plains : List PlainLexeme) : Prop where
  /-- They are those of the row. -/
  lexed : Lexed (.row afterText content) plains
  /-- Their references are resolved. -/
  expands : Expands raws plains
  /-- They are read. -/
  takes : Takes AtMarkup source raws
  /-- Behind a text they begin with markup. -/
  markup : afterText = true → ∀ rest, AtMarkup rest → AtMarkup (source ++ rest)

/-- A part of a tree that can be written is read from its spelling. -/
def Part.IsRead : Part → Text → Prop
  | .element own, source =>
    WritableElement own → ∃ raws plains, ReadsElement own source raws plains
  | .row afterText content, source =>
    WritableContent content → ∃ raws plains, ReadsRow afterText content source raws plains

/-- The attributes of a tag that can be written are those of the element in another order. -/
theorem WritableAttributes.of_perm {attributes : Dict Text} {written : List (Text × Text)}
    (writable : WritableAttributes attributes) (order : written.Perm attributes.entries) :
    ∀ entry ∈ written, IsWritableEntry entry := by
  intro entry listed
  obtain ⟨plain, -, value⟩ := writable entry (order.mem_iff.1 listed)
  exact ⟨plain, value⟩

/-- An element in a single tag is read. -/
theorem exists_closed {name tag space : Text} {attributes : Dict Text}
    {written : List (Text × Text)} (order : written.Perm attributes.entries)
    (spelled : SpellsAttributes written tag) (white : IsWhite space)
    (writable : WritableElement ⟨name, attributes, .nil⟩) :
    ∃ raws plains, ReadsElement ⟨name, attributes, .nil⟩
      ('<' :: name ++ tag ++ space ++ "/>".toList) raws plains := by
  obtain ⟨plain, values, -⟩ := writable
  obtain ⟨raws, reads, taken⟩ := exists_opening plain spelled (values.of_perm order)
  have tagTaken : ∀ rest, take ('<' :: name ++ tag ++ space ++ "/>".toList ++ rest) =
      some (.opening ⟨[], name⟩ raws true, rest) := by
    intro rest
    rw [List.append_assoc _ "/>".toList]
    exact (taken space rest white).2
  refine ⟨[.opening ⟨[], name⟩ raws true], _, .closed order, .opening reads true,
    .single (fun _ => rfl) fun rest _ => tagTaken rest, fun rest => ?_, fun rest => AtMarkup.cons _⟩
  rw [takeRoot, tagTaken]
  rfl

/-- An element between two tags is read if its row is. -/
theorem exists_opened {name tag space inner space' : Text} {attributes : Dict Text}
    {content : Content} {written : List (Text × Text)} (order : written.Perm attributes.entries)
    (spelled : SpellsAttributes written tag) (white : IsWhite space) (white' : IsWhite space')
    (writable : WritableElement ⟨name, attributes, content⟩) {row : List RawLexeme}
    {plains : List PlainLexeme} (reads : ReadsRow false content inner row plains) :
    ∃ raws plains, ReadsElement ⟨name, attributes, content⟩
      ('<' :: name ++ tag ++ space ++ '>' :: inner ++ "</".toList ++ name ++ space' ++ ['>'])
      raws plains := by
  obtain ⟨plain, values, -⟩ := writable
  obtain ⟨raws, attributesRead, taken⟩ := exists_opening plain spelled (values.of_perm order)
  let opening : RawLexeme := .opening ⟨[], name⟩ raws false
  let closing : RawLexeme := .closing ⟨[], name⟩
  have whole : ∀ rest, '<' :: name ++ tag ++ space ++ '>' :: inner ++ "</".toList ++ name ++
      space' ++ ['>'] ++ rest = '<' :: name ++ tag ++ space ++ '>' ::
        (inner ++ '<' :: '/' :: (name ++ (space' ++ '>' :: rest))) := by
    intro rest
    simp
  have first : ∀ rest, take ('<' :: name ++ tag ++ space ++ '>' ::
      (inner ++ '<' :: '/' :: (name ++ (space' ++ '>' :: rest)))) =
        some (opening, inner ++ '<' :: '/' :: (name ++ (space' ++ '>' :: rest))) :=
    fun rest => (taken space _ white).1
  have last : ∀ rest, take ('<' :: '/' :: (name ++ (space' ++ '>' :: rest))) =
      some (closing, rest) := take_closing_append plain white'
  have inside := fun before rest => reads.takes before
    ('<' :: '/' :: (name ++ (space' ++ '>' :: rest))) (AtMarkup.cons _)
  have closes : Expands [closing] [.closing ⟨[], name⟩] :=
    .single fun _ _ => Counted.gives_pure _
  refine ⟨[opening] ++ row ++ [closing], _, .opened order reads.lexed,
    ((Expands.opening attributesRead false).append reads.expands).append closes, ?_, fun rest => ?_,
    fun rest => AtMarkup.cons _⟩
  · intro before rest _
    rw [whole, takeContent_cons (first rest) (by rfl), inside,
      takeContent_cons (last rest) (by rfl)]
    simp [Function.comp_def]
  · rw [whole, takeRoot, first]
    have content : takeContent 0 (inner ++ '<' :: '/' :: (name ++ (space' ++ '>' :: rest))) =
        some (row ++ [closing], rest) := by
      rw [inside, takeContent_last (last rest) rfl]
      rfl
    simp only [Option.bind_eq_bind, Option.bind_some, opening, content]
    rfl

/-- Every spelling of a tree that can be written is read. -/
theorem SpellsPart.isRead {part : Part} {source : Text} (spelled : SpellsPart part source) :
    part.IsRead source := by
  induction spelled with
  | closed order attributes white => exact exists_closed order attributes white
  | opened order attributes white row white' ih =>
    intro writable
    obtain ⟨raws, plains, reads⟩ := ih writable.2.2
    exact exists_opened order attributes white white' writable reads
  | nil => exact fun _ => ⟨[], [], .nil, .nil, .nil, fun _ _ markup => markup⟩
  | gap gap rest ih =>
    intro writable
    obtain ⟨raws, plains, reads⟩ := ih writable
    have alone : Expands [.gap] [.gap] := .single fun _ _ => Counted.gives_pure _
    refine ⟨[.gap] ++ raws, [.gap] ++ plains, .gap reads.lexed, alone.append reads.expands,
      gap.takes.append reads.takes fun _ _ => trivial, fun _ rest _ => ?_⟩
    rw [List.append_assoc]
    exact gap.atMarkup _
  | text spelled rest ih =>
    rintro ⟨filled, own, others⟩
    obtain ⟨raws, plains, reads⟩ := ih others
    obtain ⟨pieces, texts, rfl, expands, takes, -⟩ := spelled.exists_takes own
    exact ⟨pieces ++ raws, texts.map .text ++ plains, .text filled reads.lexed,
      expands.append reads.expands, takes.append reads.takes (reads.markup rfl), nofun⟩
  | child own others first ih =>
    rintro ⟨plain, attributes, content, rest⟩
    obtain ⟨raws, plains, reads⟩ := first ⟨plain, attributes, content⟩
    obtain ⟨raws', plains', reads'⟩ := ih rest
    refine ⟨raws ++ raws', plains ++ plains', .child reads.lexed reads'.lexed,
      reads.expands.append reads'.expands, reads.takes.append reads'.takes fun _ _ => trivial,
      fun _ rest _ => ?_⟩
    rw [List.append_assoc]
    exact reads.markup _

end ApiPages.Xml
