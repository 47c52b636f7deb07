import ApiPages.Path

/-!
# Arguments

Arguments are options and names of input files in any order; after two hyphens everything is the
name of an input. An option of one letter may stand in a row with others after a single hyphen, and
its value may follow it directly, with or without an equals sign, or as the next argument. A long
option takes its value after an equals sign or as the next argument. A next argument that looks
like an option is no value. Arguments are read in order, and the first problem or request for help
decides.
-/
namespace ApiPages

/-- What the arguments ask for. -/
structure Invocation where
  /-- The names of the inputs, in order. -/
  inputs : List Text := []
  /-- The directory of the pages. -/
  output : Option Path := none
  /-- Where the preamble of the pages is found. -/
  preamble : Option Path := none
  /-- The word for the line separator. -/
  newline : Option Text := none
  /-- Whether pages begin with an index. -/
  withIndex : Bool := false
  /-- How often more details in the log are asked for. -/
  verbosity : Nat := 0
deriving DecidableEq

/-- Why arguments lead to no run. -/
inductive Refusal where
  /-- Help is asked for. -/
  | help
  /-- The arguments do not follow the rules. -/
  | misuse
deriving DecidableEq

/-- An option. -/
inductive Switch where
  /-- The directory of the pages. -/
  | output
  /-- Where the preamble is found. -/
  | preamble
  /-- The line separator. -/
  | newline
  /-- Pages begin with an index. -/
  | index
  /-- More details in the log. -/
  | verbose
  /-- Help. -/
  | help
deriving DecidableEq

namespace Switch

/-- The long names of options. -/
def longNames : List (Text × Switch) :=
  [("output".toList, output), ("prefix".toList, preamble), ("newline".toList, newline),
    ("toc".toList, index), ("verbose".toList, verbose), ("help".toList, help)]

/-- The letters of options. -/
def letters : List (Char × Switch) :=
  [('o', output), ('p', preamble), ('v', verbose), ('h', help)]

/-- The option of a long name. -/
def ofName? (name : Text) : Option Switch := (longNames.find? (·.1 = name)).map (·.2)

/-- The option of a letter. -/
def ofLetter? (letter : Char) : Option Switch := (letters.find? (·.1 = letter)).map (·.2)

/-- Whether an option takes a value. -/
def takesValue : Switch → Bool
  | output | preamble | newline => true
  | index | verbose | help => false

end Switch

namespace Invocation

/-- Sets an option that takes a value; it may be set once, and a directory needs a name. -/
def setValue (invocation : Invocation) (switch : Switch) (value : Text) :
    Except Refusal Invocation :=
  match switch with
  | .output =>
    if invocation.output.isSome || value.isEmpty then .error .misuse
    else .ok { invocation with output := some value }
  | .preamble =>
    if invocation.preamble.isSome then .error .misuse
    else .ok { invocation with preamble := some value }
  | .newline =>
    if invocation.newline.isSome then .error .misuse
    else .ok { invocation with newline := some value }
  | .index | .verbose | .help => .error .misuse

/-- Sets an option without a value; only the one for details may be repeated. -/
def setFlag (invocation : Invocation) (switch : Switch) : Except Refusal Invocation :=
  match switch with
  | .index =>
    if invocation.withIndex then .error .misuse else .ok { invocation with withIndex := true }
  | .verbose => .ok { invocation with verbosity := invocation.verbosity + 1 }
  | .help => .error .help
  | .output | .preamble | .newline => .error .misuse

/-- Adds the name of an input. -/
def addInput (invocation : Invocation) (name : Text) : Invocation :=
  { invocation with inputs := invocation.inputs ++ [name] }

/-- A value without the equals sign that may come before it. -/
def attachedValue : Text → Text
  | '=' :: value => value
  | value => value

/-- Reads a row of letters. If the last one takes a value that does not follow it directly, that
option is left open. -/
def readLetters (invocation : Invocation) : Text → Except Refusal (Invocation × Option Switch)
  | [] => .ok (invocation, none)
  | letter :: rest =>
    match Switch.ofLetter? letter with
    | none => .error .misuse
    | some switch =>
      if switch.takesValue then
        if rest.isEmpty then .ok (invocation, some switch)
        else (invocation.setValue switch (attachedValue rest)).map (·, none)
      else (invocation.setFlag switch).bind (readLetters · rest)

/-- Reads a long option. If it takes a value and none follows an equals sign, it is left open. -/
def readLong (invocation : Invocation) (text : Text) :
    Except Refusal (Invocation × Option Switch) :=
  let (name, value) :=
    match text.cutAt '=' with
    | some (name, value) => (name, some value)
    | none => (text, none)
  match Switch.ofName? name, value with
  | none, _ => .error .misuse
  | some switch, some value => (invocation.setValue switch value).map (·, none)
  | some switch, none =>
    if switch.takesValue then .ok (invocation, some switch)
    else (invocation.setFlag switch).map (·, none)

/-- Whether an argument looks like an option. -/
def looksLikeOption : Text → Bool
  | '-' :: _ :: _ => true
  | _ => false

/-- Reads an argument that looks like an option. -/
def readOption (invocation : Invocation) : Text → Except Refusal (Invocation × Option Switch)
  | '-' :: '-' :: name => readLong invocation name
  | '-' :: letters => readLetters invocation letters
  | _ => .error .misuse

/-- Reads arguments after others, of which the last may be an option that still needs its value. -/
def readFrom (invocation : Invocation) : (opened : Option Switch) → List Text →
    Except Refusal Invocation
  | none, [] => .ok invocation
  | some _, [] => .error .misuse
  | opened, argument :: rest =>
    if looksLikeOption argument then
      if opened.isSome then .error .misuse
      else if argument = ['-', '-'] then .ok (rest.foldl addInput invocation)
      else
        match invocation.readOption argument with
        | .ok (invocation, opened) => readFrom invocation opened rest
        | .error refusal => .error refusal
    else
      match opened with
      | some switch =>
        match invocation.setValue switch argument with
        | .ok invocation => readFrom invocation none rest
        | .error refusal => .error refusal
      | none => readFrom (invocation.addInput argument) none rest

/-- Reads the arguments of a program. -/
def read (arguments : List Text) : Except Refusal Invocation := readFrom {} none arguments

end Invocation
end ApiPages
