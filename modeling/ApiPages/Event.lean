import ApiPages.Identifier

/-!
# Log events

What happens during a conversion is reported as events. An event has a level, a statement and
fields; its line in a log is the name of the level, a space, the statement and the fields. Where
the log is shown on a terminal, characters of the statement that could control it are written as
escapes.
-/
namespace ApiPages

/-- The importance of an event. -/
inductive Level where
  /-- Shown only when every detail is asked for. -/
  | debug
  /-- Shown when more than warnings are asked for. -/
  | info
  /-- Always shown. -/
  | warn
deriving DecidableEq

namespace Level

/-- The name of a level. -/
def label : Level → Text
  | debug => "DEBUG".toList
  | info => "INFO".toList
  | warn => "WARN".toList

/-- The place of a level in the order of importance. -/
def rank : Level → Nat
  | debug => 0
  | info => 1
  | warn => 2

/-- The least important level that is shown when details have been asked for a number of times. -/
def ofVerbosity : Nat → Level
  | 0 => warn
  | 1 => info
  | _ => debug

end Level

/-- What a conversion reports. -/
inductive Event where
  /-- The correction of a file has begun. -/
  | correctionStarted
  /-- A member was left out because its identifier cannot be decoded. -/
  | memberSkipped (error : IdentifierError)
  /-- The members of a file have been grouped into namespaces. -/
  | correctionFinished (namespaces skipped : Nat)
  /-- A file does not name its assembly. -/
  | assemblyMissing
  /-- The namespaces of a file are being joined to those of earlier ones. -/
  | merging (source : Text) (namespaces : Nat)
  /-- A pattern matches no file. -/
  | nothingMatched (pattern : Text)
deriving DecidableEq

namespace Event

/-- The level of an event. -/
def level : Event → Level
  | correctionStarted | correctionFinished _ _ | merging _ _ => .debug
  | assemblyMissing => .info
  | memberSkipped _ | nothingMatched _ => .warn

/-- What an event says, without its fields. -/
def statement : Event → Text
  | correctionStarted => "started member correction".toList
  | memberSkipped error => "skipping member: ".toList ++ error.message
  | correctionFinished _ _ => "finished member correction".toList
  | assemblyMissing => "assembly element not found".toList
  | merging _ _ => "merging".toList
  | nothingMatched pattern => "no files matched: ".toList ++ pattern

/-- The values that an event states under their names. -/
def fields : Event → List (Text × Text)
  | correctionFinished namespaces skipped =>
    [("namespaces".toList, Text.ofNat namespaces), ("skipped".toList, Text.ofNat skipped)]
  | merging source namespaces =>
    [("source".toList, source), ("namespaces".toList, Text.ofNat namespaces)]
  | correctionStarted | memberSkipped _ | assemblyMissing | nothingMatched _ => []

/-- The fields of an event as they follow a statement. -/
def writtenFields (event : Event) : Text :=
  event.fields.flatMap fun (name, value) => ' ' :: name ++ '=' :: value

/-- The line of an event in a log that is kept. -/
def line (event : Event) : Text :=
  event.level.label ++ ' ' :: event.statement ++ event.writtenFields

/-- The line of an event in a log that is shown. The statement must not control the terminal; fields
are shown as they are. -/
def shownLine (event : Event) : Text :=
  event.level.label ++ ' ' :: event.statement.flatMap Text.withoutControl ++ event.writtenFields

/-- Whether an event is shown when events of a level and above are. -/
def shownAt (threshold : Level) (event : Event) : Bool := threshold.rank ≤ event.level.rank

end Event
end ApiPages
