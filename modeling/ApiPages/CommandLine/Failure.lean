import ApiPages.Markdown.Options
import ApiPages.Source

/-!
# Failures

Every way in which a run can fail has its own case. A failure is shown as a chain of messages; each
one says why the one before it came about. What the system has to say about a file is not part of
the chain.
-/
namespace ApiPages

/-- Why a run failed. -/
inductive Failure where
  /-- The line separator is not known. -/
  | unknownNewline (unknown : UnknownNewline)
  /-- The standard input is not a text. -/
  | unreadableInput
  /-- The standard input is not a well-formed document. -/
  | malformedInput
  /-- Inputs are named but no directory for the pages. -/
  | outputMissing
  /-- The directory for the pages cannot be made. -/
  | outputRefused (path : Path)
  /-- No preamble is found. -/
  | preambleMissing (path : Path)
  /-- The preamble cannot be read or is not a text. -/
  | preambleUnreadable (path : Path)
  /-- A directory of inputs cannot be read. -/
  | directoryUnreadable (path : Path)
  /-- The name of an input is no pattern. -/
  | invalidPattern (pattern : Text)
  /-- An input cannot be read or is not a text. -/
  | unreadable (path : Path)
  /-- The content of an input cannot be read. -/
  | unparsable (path : Path) (error : SourceError)
  /-- The pages of two namespaces have the same name. -/
  | clash (first second name : Text)
  /-- A page cannot be written. -/
  | unwritable (path : Path)
deriving DecidableEq

/-- The messages of a failure, each followed by its cause. -/
def Failure.chain : Failure → List Text
  | unknownNewline unknown => [unknown.message]
  | unreadableInput => ["failed to read stdin".toList]
  | malformedInput => [malformedMessage]
  | outputMissing => ["--output is required when files are given".toList]
  | outputRefused path => ["failed to create output directory: ".toList ++ path]
  | preambleMissing path => ["prefix not found: ".toList ++ path]
  | preambleUnreadable path => ["failed to read prefix file: ".toList ++ path]
  | directoryUnreadable path => ["failed to read directory: ".toList ++ path]
  | invalidPattern pattern => ["invalid glob pattern: ".toList ++ pattern]
  | unreadable path => ["failed to read ".toList ++ path]
  | unparsable path error => ["failed to parse ".toList ++ path, error.message]
  | clash first second name =>
    ["namespaces `".toList ++ first ++ "` and `".toList ++ second ++
      "` map to the same output file ".toList ++ name ++ ".md".toList]
  | unwritable path => ["failed to write ".toList ++ path]

end ApiPages
