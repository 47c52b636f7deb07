import ApiPages.Proofs.SpelledTags

/-!
# Reading lexemes back

Every lexeme is read up to its end, and a run of text up to the markup behind it. Its references are
resolved to the characters that they stand for, and its attributes to their values.
-/
namespace ApiPages.Xml

/-! ### Resolution -/

/-- Attributes without qualifiers. -/
def plainAttributes (entries : List (Text × Text)) : List (QualifiedName × Text) :=
  entries.map fun entry => (⟨[], entry.1⟩, entry.2)

/-- Lexemes of a document whose references resolve to these lexemes. -/
def Expands (raws : List RawLexeme) (plains : List PlainLexeme) : Prop :=
  ∀ entities expandEntity, ∃ parts,
    Counted.Gives (raws.mapM (expandLexeme (Glyph.settleLineEnds false) expandEntity
      (expandValue entities))) parts ∧ parts.flatten = plains

namespace Expands

/-- No lexemes resolve to none. -/
theorem nil : Expands [] [] := fun _ _ => ⟨[], Counted.gives_pure [], rfl⟩

/-- Joined lexemes resolve to what their parts resolve to. -/
theorem append {first second : List RawLexeme} {early late : List PlainLexeme}
    (one : Expands first early) (two : Expands second late) :
    Expands (first ++ second) (early ++ late) := by
  intro entities expandEntity
  obtain ⟨parts, gives, rfl⟩ := one entities expandEntity
  obtain ⟨others, gives', rfl⟩ := two entities expandEntity
  refine ⟨parts ++ others, ?_, List.flatten_append⟩
  rw [List.mapM_append]
  exact gives.bind (gives'.bind (Counted.gives_pure _))

/-- A single lexeme resolves to what its own expansion gives. -/
theorem single {raw : RawLexeme} {plains : List PlainLexeme}
    (gives : ∀ entities expandEntity, Counted.Gives (expandLexeme (Glyph.settleLineEnds false)
      expandEntity (expandValue entities) raw) plains) : Expands [raw] plains := by
  intro entities expandEntity
  refine ⟨[plains], ?_, by simp⟩
  rw [List.mapM_cons]
  exact (gives entities expandEntity).bind (Counted.gives_pure _)

/-- Lexemes expand to what they resolve to, whatever entities are declared. -/
theorem expand_eq {raws : List RawLexeme} {plains : List PlainLexeme}
    (expands : Expands raws plains) (entities : Entities) : expand entities raws = some plains := by
  obtain ⟨parts, gives, rfl⟩ := expands entities _
  have whole : Counted.Gives (_ >>= fun parts => pure (List.flatten parts)) parts.flatten :=
    gives.bind (Counted.gives_pure _)
  rw [expand, StateT.run'_eq]
  exact congrArg (Option.map Prod.fst) (whole 0)

/-- A run of glyphs resolves to a piece for each of its characters. -/
theorem run {glyphs : List Glyph} {text : Text}
    (shown : List.Forall₂ (Glyph.Shows PlainInText) glyphs text) :
    Expands [.text (.run glyphs)] ((text.map fun character => [character]).map .text) := by
  refine single fun entities expandEntity => ?_
  rw [expandLexeme, Glyph.settleLineEnds_eq shown (by simp [PlainInText])]
  have pieces : List.Forall₂ (fun piece character => piece = Piece.character character)
      (text.map .character) text := by
    rw [List.forall₂_map_left_iff]
    exact List.forall₂_same.2 fun _ _ => rfl
  have flat : (text.map fun character => [(.text [character] : PlainLexeme)]).flatten =
      (text.map fun character => [character]).map .text := by
    rw [← List.flatMap_def, List.map_map]
    exact List.flatMap_pure_eq_map _ _
  refine (Counted.gives_mapM (fun character => [.text [character]]) ?_ pieces).bind ?_
  · rintro piece character rfl
    exact Counted.gives_pure _
  · rw [flat]
    exact Counted.gives_pure _

/-- A tag resolves to one with the values that its glyphs show. -/
theorem opening {name : Text} {raws : List RawAttribute} {entries : List (Text × Text)}
    (reads : List.Forall₂ ReadsAs raws entries) (closed : Bool) :
    Expands [.opening ⟨[], name⟩ raws closed]
      [.opening ⟨[], name⟩ (plainAttributes entries) closed] := by
  refine single fun entities expandEntity => ?_
  have values : Counted.Gives (raws.mapM fun (name, glyphs) => do
      pure (name, ← expandValue entities glyphs)) (plainAttributes entries) := by
    refine Counted.gives_mapM _ ?_ reads
    rintro ⟨own, glyphs⟩ ⟨key, value⟩ ⟨rfl, quote, shown⟩
    exact (expandValue_gives entities shown).bind (Counted.gives_pure _)
  exact values.bind (Counted.gives_pure _)

end Expands

/-! ### Lexemes -/

/-- A text that begins with markup, or nothing. -/
def AtMarkup (text : Text) : Prop := Stops (fun character => decide (character ≠ '<')) text

/-- A less-than sign begins markup. -/
theorem AtMarkup.cons (rest : Text) : AtMarkup ('<' :: rest) := Stops.cons (by decide) rest

/-- What begins like a processing instruction is one, unless it begins like a declaration. -/
theorem Lexeme.announced_instruction {text : Text}
    (undeclared : Text.dropStart? "xml ".toList text = none) :
    Reader.announced gaps ('<' :: '?' :: text) = some (instruction text) := by
  have mark : Text.dropStart? ['x', 'm', 'l', ' '] text = none := undeclared
  simp [Reader.announced, gaps, Reader.exactly, Text.dropStart?, mark]

/-- A processing instruction is read up to its end. -/
theorem Lexeme.instruction_append {target content : Text} (named : isName target = true)
    (apart : ∀ head ∈ content.head?, isSpace head = true) (writable : IsWritable content)
    (absent : ¬ "?>".toList <:+: content) (rest : Text) :
    instruction (target ++ (content ++ (['?'] ++ '>' :: rest))) = some (.gap, rest) := by
  have taken : Reader.upTo "?>".toList (content ++ (['?'] ++ '>' :: rest)) =
      some (content, rest) := Reader.upTo_append ['?'] '>' (by decide) writable absent rest
  have stops : Stops continuesName (content ++ (['?'] ++ '>' :: rest)) :=
    .append (fun head first => continuesName_of_isSpace (apart head first)) (.cons (by decide) _)
  simp only [instruction, Reader.name_append named stops, Option.bind_eq_bind, Option.bind_some,
    taken]

namespace SpellsGap

variable {source : Text}

/-- A gap is recognised by its mark and read up to its end. -/
theorem announced_eq (gap : SpellsGap source) (rest : Text) :
    Reader.announced Lexeme.gaps (source ++ rest) = some (some (.gap, rest)) := by
  cases gap with
  | @comment content writable absent last =>
    have arrow : ¬ "--".toList ++ ['>'] <:+: content := by
      rintro ⟨front, back, split⟩
      exact absent ⟨front, '>' :: back, by rw [← split]; simp⟩
    have taken : Reader.upTo "-->".toList (content ++ ("--".toList ++ '>' :: rest)) =
        some (content, rest) := Reader.upTo_append "--".toList '>' (by decide) writable arrow rest
    have holds : Text.holds content "--".toList = false := Text.holds_eq_false_iff.2 absent
    have ends : (content.getLast? == some '-') = false := by simpa using last
    have read : Lexeme.comment (content ++ ("--".toList ++ '>' :: rest)) = some (.gap, rest) := by
      simp only [Lexeme.comment, taken, Option.bind_eq_bind, Option.bind_some, holds, ends,
        Bool.or_self, Bool.false_eq_true, if_false]
    have whole : "<!--".toList ++ content ++ "-->".toList ++ rest =
        '<' :: '!' :: '-' :: '-' :: (content ++ ("--".toList ++ '>' :: rest)) := by simp
    rw [whole, ← read]
    simp [Reader.announced, Lexeme.gaps, Reader.exactly, Text.dropStart?]
  | @instruction target content named other apart writable absent =>
    have read := Lexeme.instruction_append named apart writable absent rest
    have stops : Stops continuesName (content ++ (['?'] ++ '>' :: rest)) :=
      .append (fun head first => continuesName_of_isSpace (apart head first)) (.cons (by decide) _)
    have whole : "<?".toList ++ target ++ content ++ "?>".toList ++ rest =
        '<' :: '?' :: (target ++ (content ++ (['?'] ++ '>' :: rest))) := by simp
    -- A target that the mark of a declaration begins would be the target of a declaration.
    have undeclared : Text.dropStart? "xml ".toList
        (target ++ (content ++ (['?'] ++ '>' :: rest))) = none := by
      cases start : Text.dropStart? "xml ".toList
          (target ++ (content ++ (['?'] ++ '>' :: rest))) with
      | none => rfl
      | some following =>
        have split := Text.dropStart?_eq_some_iff.1 start
        obtain ⟨-, -, -, -, all, -⟩ := exists_of_isName named
        have ends : Stops continuesName (' ' :: following) := .cons (by decide) _
        have word : target = "xml".toList := by
          have letters : ∀ character ∈ "xml".toList, continuesName character = true :=
            List.all_eq_true.1 (by decide)
          rw [← stops.takeWhile_append all, split]
          exact ends.takeWhile_append letters
        exact absurd word other
    rw [whole, Lexeme.announced_instruction undeclared, read]

/-- A gap is taken off the text that it starts. -/
theorem take_eq (gap : SpellsGap source) (rest : Text) :
    Lexeme.take (source ++ rest) = some (.gap, rest) := by
  have announced := gap.announced_eq rest
  have begins : ∃ following, source ++ rest = '<' :: following := by
    cases gap <;> exact ⟨_, rfl⟩
  obtain ⟨following, first⟩ := begins
  rw [first] at announced ⊢
  rw [Lexeme.take, if_pos rfl, Reader.announced, Lexeme.markup, List.findSome?_append]
  rw [Reader.announced] at announced
  rw [announced]
  rfl

/-- A gap begins with markup. -/
theorem atMarkup (gap : SpellsGap source) (rest : Text) : AtMarkup (source ++ rest) := by
  cases gap <;> exact AtMarkup.cons _

end SpellsGap

namespace Lexeme

/-- A run of text is read up to the next markup. -/
theorem exists_run {own source : Text} (filled : own ≠ [])
    (spelled : Spells PlainInText own source) (absent : ¬ "]]>".toList <:+: source)
    (writable : IsWritable own) :
    ∃ glyphs, List.Forall₂ (Glyph.Shows PlainInText) glyphs own ∧
      ∀ rest, AtMarkup rest → take (source ++ rest) = some (.text (.run glyphs), rest) := by
  obtain ⟨glyphs, read, shown⟩ := Glyph.exists_read spelled writable (by simp [PlainInText])
  refine ⟨glyphs, shown, fun rest markup => ?_⟩
  have bracket : '<' ∉ source := spelled.notMem (by simp [PlainInText]) (by decide)
  have plain : ∀ character ∈ source, decide (character ≠ '<') = true := fun character listed =>
    decide_eq_true fun same => bracket (same ▸ listed)
  have all : source.all isCharacter = true := List.all_eq_true.2 (spelled.isWritable writable)
  have holds : Text.holds source "]]>".toList = false := Text.holds_eq_false_iff.2 absent
  obtain ⟨head, others, first⟩ := List.exists_cons_of_ne_nil (spelled.ne_nil filled)
  have other : head ≠ '<' := by
    rintro rfl
    exact bracket (first ▸ List.mem_cons_self)
  have run : take (source ++ rest) = textRun (source ++ rest) := by
    rw [first, List.cons_append, take, if_neg other]
  rw [run, textRun, markup.takeWhile_append plain, markup.dropWhile_append plain]
  simp only [all, holds, Bool.not_false, Bool.and_self, if_true, read, Option.bind_eq_bind,
    Option.bind_some]

/-- A verbatim section is read up to its end. -/
theorem take_verbatim {content : Text} (writable : IsWritable content)
    (absent : ¬ "]]>".toList <:+: content) (rest : Text) :
    take ("<![CDATA[".toList ++ content ++ "]]>".toList ++ rest) =
      some (.text (.verbatim content), rest) := by
  have taken : Reader.upTo "]]>".toList (content ++ ("]]".toList ++ '>' :: rest)) =
      some (content, rest) := Reader.upTo_append "]]".toList '>' (by decide) writable absent rest
  have read : verbatimSection (content ++ ("]]".toList ++ '>' :: rest)) =
      some (.text (.verbatim content), rest) := by
    simp only [verbatimSection, taken, Option.bind_eq_bind, Option.bind_some]
  have whole : "<![CDATA[".toList ++ content ++ "]]>".toList ++ rest =
      '<' :: '!' :: '[' :: 'C' :: 'D' :: 'A' :: 'T' :: 'A' :: '[' ::
        (content ++ ("]]".toList ++ '>' :: rest)) := by simp
  rw [whole, ← read]
  simp [take, Reader.announced, markup, gaps, Reader.exactly, Text.dropStart?]

variable {text rest : Text} {lexeme : RawLexeme} {before after : Nat}

/-- Content goes on behind a lexeme that leaves its element open. -/
theorem takeContent_cons (taken : take text = some (lexeme, rest))
    (opened : lexeme.openAfter before = some after) :
    takeContent before text =
      (takeContent after rest).map fun (lexemes, rest) => (lexeme :: lexemes, rest) := by
  have filled : text ≠ [] := by
    rintro rfl
    cases taken
  rw [takeContent, if_neg filled]
  split
  · simp_all
  · rename_i found
    simp only [taken, Option.some.injEq, Prod.mk.injEq] at found
    obtain ⟨rfl, rfl⟩ := found
    split
    · simp_all
    · rename_i found
      obtain rfl := Option.some.inj (opened.symm.trans found)
      rfl

/-- Content ends behind the tag that closes its element. -/
theorem takeContent_last (taken : take text = some (lexeme, rest))
    (closed : lexeme.openAfter before = none) :
    takeContent before text = some ([lexeme], rest) := by
  have filled : text ≠ [] := by
    rintro rfl
    cases taken
  rw [takeContent, if_neg filled]
  split
  · simp_all
  · rename_i found
    simp only [taken, Option.some.injEq, Prod.mk.injEq] at found
    obtain ⟨rfl, rfl⟩ := found
    split
    · rfl
    · simp_all

end Lexeme

end ApiPages.Xml
