import ApiPages.CommandLine.Arguments
import ApiPages.CommandLine.Inputs
import ApiPages.CommandLine.Output
import ApiPages.Conversion
import ApiPages.Merge

/-!
# Running the program

Without inputs the program reads one document from its standard input and prints all pages in the
order of their namespaces. With inputs it makes the output directory, finds the preamble and the
input files, reads and corrects every file, merges them, and writes one page for each namespace.
-/
namespace ApiPages

variable {m : Type → Type} [Monad m]

/-- Converts the standard input to the standard output. -/
def runStream (host : Host m) (threshold : Level) (options : Options) :
    ExceptT Failure m Unit := do
  match (← host.input).text? with
  | none => throw .unreadableInput
  | some source =>
    match convert options source with
    | none => throw .malformedInput
    | some (pages, events) =>
      host.reportAll threshold events
      host.print pages.values.flatten

/-- Converts the input files to pages in the output directory. -/
def runFiles (host : Host m) (threshold : Level) (options : Options) (invocation : Invocation) :
    ExceptT Failure m Unit := do
  match invocation.output with
  | none => throw .outputMissing
  | some output =>
    if ← host.makeDirectories output then
      let preamble ← findPreamble host invocation.preamble output
      let files ← inputFiles host threshold invocation.inputs
      let corrected ← files.mapM (readInput host threshold)
      host.reportAll threshold (Namespaces.mergeEvents corrected)
      writePages host output preamble [] (Markdown.pages options (.merge corrected)).entries
    else throw (.outputRefused output)

/-- Does what an invocation asks for. -/
def runInvocation (host : Host m) (invocation : Invocation) : ExceptT Failure m Unit := do
  let threshold := Level.ofVerbosity invocation.verbosity
  match (invocation.newline.map Newline.parse).getD (.ok .native) with
  | .error unknown => throw (.unknownNewline unknown)
  | .ok newline =>
    let options : Options := ⟨newline, invocation.withIndex⟩
    if invocation.inputs.isEmpty then runStream host threshold options
    else runFiles host threshold options invocation

/-- How a run ended. -/
inductive Ending where
  /-- Everything has been done. -/
  | done
  /-- Something failed. -/
  | failed (failure : Failure)
  /-- The arguments led to no run. -/
  | refused (refusal : Refusal)
deriving DecidableEq

/-- The exit code of a run. -/
def Ending.code : Ending → Nat
  | done | refused .help => 0
  | failed _ => 1
  | refused .misuse => 2

/-- Runs the program with its arguments. -/
def run (host : Host m) (arguments : List Text) : m Ending := do
  match Invocation.read arguments with
  | .error refusal => pure (.refused refusal)
  | .ok invocation =>
    match ← (runInvocation host invocation).run with
    | .ok () => pure .done
    | .error failure => pure (.failed failure)

end ApiPages
