import ApiPages.Text.Basic

/-!
# Glob patterns

A pattern is written like a path whose pieces are patterns for names. In a name a star stands for
any characters, a question mark for one, and brackets for one character of a set, or of its
complement after an exclamation mark. A piece of two stars stands for any number of directories;
stars that meet in any other way are refused, and so are brackets that do not close. The law says
that a pattern without these signs matches its own name only.
-/
namespace ApiPages.Glob

/-- A member of a set of characters. -/
inductive Member where
  /-- A character. -/
  | one (character : Char)
  /-- The characters from a first to a last one. -/
  | between (first last : Char)
deriving DecidableEq

/-- Whether a member of a set holds a character. -/
def Member.admits : Member → Char → Bool
  | one expected, character => expected = character
  | between first last, character => first ≤ character && character ≤ last

/-- The members that a text between brackets lists. -/
def Member.readAll : Text → List Member
  | first :: '-' :: last :: rest => between first last :: readAll rest
  | character :: rest => one character :: readAll rest
  | [] => []

/-- A sign of a pattern for names. -/
inductive Sign where
  /-- A character that stands for itself. -/
  | exactly (character : Char)
  /-- Any character. -/
  | anyOne
  /-- Any characters. -/
  | anyRun
  /-- A character of a set. -/
  | within (members : List Member)
  /-- A character outside a set. -/
  | without (members : List Member)
deriving DecidableEq

/-- Whether a sign for one character admits it. -/
def Sign.admits : Sign → Char → Bool
  | exactly expected, character => expected = character
  | anyOne, _ => true
  | anyRun, _ => false
  | within members, character => members.any (·.admits character)
  | without members, character => !members.any (·.admits character)

/-- Joins every truth value with all later ones: some of them must hold. -/
def someFrom : List Bool → List Bool
  | [] => []
  | head :: rest =>
    let later := someFrom rest
    (head || later.headD false) :: later

/-- Answers for every end of a name, from the whole of it down to the empty one, whether a sign and
the signs after it match, given the same answers for the signs after it. -/
def Sign.matchesEnds (sign : Sign) (name : Text) (later : List Bool) : List Bool :=
  if sign = anyRun then someFrom later
  else List.zipWith (fun head matched => sign.admits head && matched) name later.tail ++ [false]

/-- Answers for every end of a name whether signs match it. All ends are answered together, so that
no part of the name is tried twice. -/
def matchesEnds (signs : List Sign) (name : Text) : List Bool :=
  signs.foldr (fun sign later => sign.matchesEnds name later) (name.map (fun _ => false) ++ [true])

/-- Whether signs match a whole name. -/
def matchesName (signs : List Sign) (name : Text) : Bool := (matchesEnds signs name).headD false

/-- The name that signs stand for when every one of them is a character. -/
def literal? : List Sign → Option Text
  | [] => some []
  | .exactly character :: signs => (literal? signs).map (character :: ·)
  | _ :: _ => none

/-- Takes the set after an opening bracket. A closing bracket that comes first is a member. -/
def takeSet : Text → Option (Sign × Text)
  | '!' :: first :: rest =>
    (Text.cutAt ']' rest).map fun (members, following) =>
      (.without (Member.readAll (first :: members)), following)
  | first :: rest =>
    if first = '!' then none
    else (Text.cutAt ']' rest).map fun (members, following) =>
      (.within (Member.readAll (first :: members)), following)
  | [] => none

/-- A set leaves less than the text that it was taken from. -/
theorem takeSet_shorter {text rest : Text} {sign : Sign}
    (taken : takeSet text = some (sign, rest)) : rest.length < text.length := by
  unfold takeSet at taken
  split at taken
  · simp only [Option.map_eq_some_iff, Prod.exists, Prod.mk.injEq] at taken
    obtain ⟨members, rest, cut, -, rfl⟩ := taken
    simp [Text.eq_of_cutAt cut]
    omega
  · simp only [Option.ite_none_left_eq_some, Option.map_eq_some_iff, Prod.exists,
      Prod.mk.injEq] at taken
    obtain ⟨-, members, rest, cut, -, rfl⟩ := taken
    simp [Text.eq_of_cutAt cut]
    omega
  · simp at taken

/-- Reads the signs of a name. -/
def readSigns (text : Text) : Option (List Sign) :=
  match text with
  | [] => some []
  | '*' :: '*' :: _ => none
  | '[' :: rest =>
    match taken : takeSet rest with
    | some (sign, following) =>
      have := takeSet_shorter taken
      (readSigns following).map (sign :: ·)
    | none => none
  | head :: rest =>
    let sign := if head = '*' then .anyRun else if head = '?' then .anyOne else .exactly head
    (readSigns rest).map (sign :: ·)
termination_by text.length

/-- A piece of a pattern. -/
inductive Piece where
  /-- Any number of directories. -/
  | tree
  /-- An entry whose name matches. -/
  | name (signs : List Sign)
deriving DecidableEq

/-- Reads a piece. -/
def Piece.read (text : Text) : Option Piece :=
  if text = ['*', '*'] then some tree else (readSigns text).map name

/-- A pattern. -/
structure Pattern where
  /-- The slashes with which it starts, if it does so at the root. -/
  root : Text
  /-- Its pieces; those for any number of directories do not meet. -/
  pieces : List Piece
  /-- Whether only directories match. -/
  directoriesOnly : Bool
deriving DecidableEq

/-- Leaves one of neighbouring pieces for any number of directories. -/
def joinTrees : List Piece → List Piece
  | .tree :: .tree :: rest => joinTrees (.tree :: rest)
  | piece :: rest => piece :: joinTrees rest
  | [] => []

/-- The texts between the slashes of a pattern, where a slash at the end counts for nothing. -/
def pieceTexts (text : Text) : List Text :=
  let texts := text.splitOn '/'
  if 1 < texts.length ∧ texts.getLast? = some [] then texts.dropLast else texts

/-- Reads a pattern. -/
def Pattern.read (text : Text) : Option Pattern := do
  let pieces ← (pieceTexts (text.dropWhile (· = '/'))).mapM Piece.read
  some ⟨text.takeWhile (· = '/'), joinTrees pieces, text.getLast? = some '/'⟩

/-- Joining truth values keeps their number. -/
theorem length_someFrom (list : List Bool) : (someFrom list).length = list.length := by
  induction list with
  | nil => rfl
  | cons head rest ih => simp [someFrom, ih]

/-- Every end of a name has an answer, the empty one included. -/
theorem length_matchesEnds (signs : List Sign) (name : Text) :
    (matchesEnds signs name).length = name.length + 1 := by
  induction signs with
  | nil => simp [matchesEnds]
  | cons sign signs ih =>
    have step : matchesEnds (sign :: signs) name = sign.matchesEnds name (matchesEnds signs name) :=
      rfl
    rw [step]
    by_cases run : sign = .anyRun <;> simp [Sign.matchesEnds, run, length_someFrom, ih]

/-- There is an answer for the name itself. -/
theorem matchesEnds_ne_nil (signs : List Sign) (name : Text) : matchesEnds signs name ≠ [] :=
  List.ne_nil_of_length_eq_add_one (length_matchesEnds signs name)

/-- The answers for the ends of a name are the one for itself and those for the ends of its rest. -/
theorem matchesEnds_cons (signs : List Sign) (head : Char) (rest : Text) :
    matchesEnds signs (head :: rest) =
      matchesName signs (head :: rest) :: matchesEnds signs rest := by
  induction signs with
  | nil => rfl
  | cons sign signs ih =>
    have step (name : Text) :
        matchesEnds (sign :: signs) name = sign.matchesEnds name (matchesEnds signs name) := rfl
    rw [matchesName, step, step, ih]
    by_cases run : sign = .anyRun
    · simp [Sign.matchesEnds, run, someFrom]
    · cases found : matchesEnds signs rest with
      | nil => exact absurd found (matchesEnds_ne_nil signs rest)
      | cons first others => simp [Sign.matchesEnds, run]

/-- Without signs only the empty name matches. -/
theorem matchesName_nil (name : Text) : matchesName [] name = decide (name = []) := by
  cases name <;> simp [matchesName, matchesEnds]

/-- A star matches nothing, or the first character and then what it matches after that. -/
theorem matchesName_anyRun (signs : List Sign) (head : Char) (rest : Text) :
    matchesName (.anyRun :: signs) (head :: rest) =
      (matchesName signs (head :: rest) || matchesName (.anyRun :: signs) rest) := by
  have step (name : Text) :
      matchesEnds (.anyRun :: signs) name = someFrom (matchesEnds signs name) := by
    simp [matchesEnds, Sign.matchesEnds]
  rw [matchesName, step, matchesEnds_cons, someFrom, ← step, ← matchesName, List.headD_cons]

/-- A star matches the empty name if the signs after it do. -/
theorem matchesName_anyRun_nil (signs : List Sign) :
    matchesName (.anyRun :: signs) [] = matchesName signs [] := by
  have step : matchesEnds (.anyRun :: signs) [] = someFrom (matchesEnds signs []) := by
    simp [matchesEnds, Sign.matchesEnds]
  obtain ⟨answer, found⟩ := List.length_eq_one_iff.1 (length_matchesEnds signs [])
  simp [matchesName, step, found, someFrom]

/-- Any other sign matches one character. -/
theorem matchesName_cons {sign : Sign} (single : sign ≠ .anyRun) (signs : List Sign) (head : Char)
    (rest : Text) :
    matchesName (sign :: signs) (head :: rest) = (sign.admits head && matchesName signs rest) := by
  have step : matchesEnds (sign :: signs) (head :: rest) =
      sign.matchesEnds (head :: rest) (matchesEnds signs (head :: rest)) := rfl
  rw [matchesName, step, matchesEnds_cons, matchesName]
  cases found : matchesEnds signs rest with
  | nil => exact absurd found (matchesEnds_ne_nil signs rest)
  | cons first others => simp [Sign.matchesEnds, single, matchesName, found]

/-- Any other sign does not match the empty name. -/
theorem matchesName_cons_nil {sign : Sign} (single : sign ≠ .anyRun) (signs : List Sign) :
    matchesName (sign :: signs) [] = false := by
  simp [matchesName, matchesEnds, Sign.matchesEnds, single]

/-- Characters that stand for themselves match exactly their own name. -/
theorem matchesName_exactly (expected name : Text) :
    matchesName (expected.map .exactly) name = true ↔ name = expected := by
  induction expected generalizing name with
  | nil => simp [matchesName_nil]
  | cons head rest ih =>
    cases name with
    | nil => simp [matchesName_cons_nil]
    | cons first others =>
      rw [List.map_cons, matchesName_cons Sign.noConfusion]
      simp only [Sign.admits, Bool.and_eq_true, decide_eq_true_eq, ih, List.cons.injEq]
      exact and_congr_left fun _ => eq_comm

end ApiPages.Glob
