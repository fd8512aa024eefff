import ChipAsm.Session
import ChipAsm.Text.ControlSequence

/-!
# Reports

What the command tells: lines on both outputs, an exit code, and whether it waits for a key.  The
exit code is 0 for success, 1 for errors in the source, 2 for arguments and files that cannot be
used, and 3 for anything else that goes wrong.

What the command says on an output has no control sequences, so that a source or a file name cannot
give orders to the terminal.  The lines of the log are shown as they are.

In a verbose run an internal error is followed by a trace of the calls that led to it.  A report says
whether there is one; its text names places in the program and is not fixed here.
-/

namespace ChipAsm.Command

open ChipAsm.Text

/-- A line that the command says. -/
def said (line : String) : String := dropSequences line

/-- The text that lines make on an output. -/
def transcript (lines : List String) : String :=
  joinReturns (String.join (lines.map (· ++ "\n")))

/-- A count with a word, which has a plural ending unless the count is one. -/
def plural (count : Int) (word : String) : String :=
  s!"{count} {word}" ++ if count = 1 then "" else "s"

/-- Who is to blame when something goes wrong. -/
inductive Blame where
  /-- The source, or a table. -/
  | build
  /-- The arguments, or a file that cannot be used. -/
  | arguments
  /-- A file that is no text. -/
  | undecodable
  /-- None of these. -/
  | internal
deriving Repr, DecidableEq

/-- The exit code. -/
def Blame.exitCode : Blame → Nat
  | .build => 1
  | .arguments => 2
  | .undecodable => 2
  | .internal => 3

/-- What is said of an error with the given text, in the activity of the given name. -/
def Blame.describe (activity text : String) : Blame → String
  | .build => (if activity = "" then "Error: " else activity ++ " error: ") ++ text
  | .arguments => "Error: " ++ text
  | .undecodable => "Error: source is not valid text: " ++ text
  | .internal => "Internal error: " ++ text

/-- The kinds of errors that the command tells apart. -/
inductive ErrorKind where
  /-- A source was read with errors. -/
  | reading
  /-- A source was assembled with errors. -/
  | assembly
  /-- A table does not take a signature. -/
  | table
  /-- Any other error of building. -/
  | build
  /-- An argument makes no sense. -/
  | parameter
  /-- There is no such file. -/
  | notFound
  /-- A file may not be used. -/
  | notPermitted
  /-- A folder stands where a file should. -/
  | isFolder
  /-- A file is no text. -/
  | undecodable
  /-- None of these. -/
  | other
deriving Repr, DecidableEq

/-- Who is to blame for an error of a kind. -/
def ErrorKind.blame : ErrorKind → Blame
  | .reading => .build
  | .assembly => .build
  | .table => .build
  | .build => .build
  | .parameter => .arguments
  | .notFound => .arguments
  | .notPermitted => .arguments
  | .isFolder => .arguments
  | .undecodable => .undecodable
  | .other => .internal

/-- The kind of error that a file which cannot be opened gives. -/
def kindOfCause : FileCause → ErrorKind
  | .notFound => .notFound
  | .isFolder => .isFolder
  | .notFolder => .other
  | .nameTooLong => .other
  | .nullCharacter => .other

/-- The kind of a failure. -/
def kindOf : Failure → ErrorKind
  | .reading .. => .reading
  | .assembly .. => .assembly
  | .numeral _ => .other
  | .file fault => kindOfCause fault.cause
  | .undecodable _ => .undecodable
  | .nothingAssembled => .other
  | .noOutputPath => .other
  | .outputName _ => .other

/-- Who is to blame for a failure. -/
def blame (failure : Failure) : Blame := (kindOf failure).blame

/-- What the command tells. -/
structure Report where
  /-- The exit code. -/
  exitCode : Nat := 0
  /-- The lines on the standard output. -/
  stdout : List String := []
  /-- The lines on the standard error output. -/
  stderr : List String := []
  /-- The command waits for a key. -/
  paused : Bool := false
  /-- A trace stands behind the lines on the standard error output. -/
  traced : Bool := false
  /-- A failure that no message was made for. -/
  escaped : Option Failure := none
deriving Repr, DecidableEq

/-- The report of an error with the given text behind the lines of the log. -/
def Report.ofError (verbose : Bool) (log : List String) (activity text : String) (blame : Blame) :
    Report where
  exitCode := blame.exitCode
  stderr := log ++ [said (blame.describe activity text)]
  traced := verbose && blame = .internal

/-- The report of a failure behind the lines of the log. -/
def Report.ofFailure (verbose : Bool) (log : List String) (activity : String) (failure : Failure) :
    Report :=
  .ofError verbose log activity failure.message (blame failure)

/-- Warnings and errors, a line for each. -/
def remarkLines (warnings errors : List Remark) : List String :=
  warnings.map (fun r => said ("Warning: " ++ r.render))
    ++ errors.map fun r => said ("Error: " ++ r.render)

/-! ## The log -/

/-- The log of reading. -/
def readingLog (reading : Reading) : List String :=
  let sections := reading.program.sections
  sections.map (fun s => s!"Closed {s.shown}")
    ++ [s!"Parsed {sections.length} sections, {reading.program.size} lines, "
      ++ s!"{reading.diagnostics.errors.length} errors"]

/-- The log of a run that is not refused. -/
def runLog (run : Run) : List String :=
  run.placed.map (fun s => s!"Placed {s.shown}") ++
    match run.result with
    | .error _ => []
    | .ok result =>
      [s!"Assembled {result.sections.length} sections into {result.lines.length} lines, "
        ++ s!"{result.diagnostics.errors.length} errors"]

/-- The summary of a result. -/
def summary (source : String) (result : Assembly) : String :=
  s!"{source}: {result.sections.length} sections, {result.lines.length} lines, "
    ++ s!"{result.diagnostics.warnings.length} warnings, "
    ++ s!"{result.diagnostics.errors.length} errors"

/-- The log of assembling a source. -/
def assemblyLog (session : Session) (source : String) : List String :=
  let reading := Reading.of source
  let run := reading.assemble session.table session.settings.advisories session.options
  readingLog reading ++ (if reading.valid then runLog run else []) ++
    match run.result with
    | .error _ => []
    | .ok result => [summary session.sourceName result]

end ChipAsm.Command
