import ChipAsm.Command.Invocation
import ChipAsm.Command.Report
import ChipAsm.InstructionSet

/-!
# The command

The command assembles its input file and writes the result beside it, or where it is told to.  It
writes only a valid result.  Warnings and errors go to the standard error output.

A run of the command is a stage: it has finished with a report, or it wants a file written and goes
on with the outcome of that.  `runIn` performs the stages on a directory that is a value; the
program performs them on the files of the system.
-/

namespace ChipAsm.Command

open ChipAsm.Text

/-- How far the command has come. -/
inductive Stage where
  /-- It is done. -/
  | finish (report : Report)
  /-- It wants a file written, and goes on with what went wrong there, if anything did. -/
  | write (path : Path) (content : String) (next : Option FileFault → Report)

/-- The log on the standard error output, if it is to be shown. -/
def shownLog (i : Invocation) (lines : List String) : List String :=
  if i.verbose then lines.map ("DEBUG: " ++ ·) else []

/-- The settings of an invocation: its arguments override the environment. -/
def settingsOf (i : Invocation) (env : List (String × String)) : Settings :=
  let settings := Settings.ofEnvironment env
  { settings with pause := i.pause.getD settings.pause }

/-- The session of an invocation. -/
def sessionOf (i : Invocation) (env : List (String × String)) : Session where
  options := ⟨i.sections, i.keepCalls, i.comments⟩
  settings := settingsOf i env
  table := Table.standard

/-- The command waits for a key after a result with remarks. -/
def waits (settings : Settings) (result : Assembly) : Bool :=
  settings.pause && !(result.diagnostics.warnings.isEmpty && result.diagnostics.errors.isEmpty)

/-- The report on a result that is not valid. -/
def reportInvalid (log : List String) (settings : Settings) (input : Path) (reading : Reading)
    (result : Assembly) : Report :=
  let (headline, d) :=
    if reading.valid then (s!"Failed to assemble {input.text}", result.diagnostics)
    else (s!"Failed to parse file {input.text}", reading.diagnostics)
  { exitCode := Blame.build.exitCode
    stdout := [said headline]
    stderr := log ++ remarkLines d.warnings d.errors
    paused := waits settings result }

/-- The report on a valid result that was written. -/
def reportWritten (log : List String) (settings : Settings) (input output : Path)
    (result : Assembly) : Report where
  stdout :=
    [said s!"Assembled {input.name} => {output.name}",
      plural result.sections.length "section" ++ " totalling "
        ++ plural result.lines.length "line"]
  stderr := log ++ remarkLines result.diagnostics.warnings []
  paused := waits settings result

/-- The path of the output: the given one, or the one derived from the input. -/
def outputOf (i : Invocation) (settings : Settings) (input : Path) : Except NameFault Path :=
  match i.output with
  | some path => .ok (.ofText path)
  | none => settings.outputPath input

/-- What follows when the input file was found to hold the given bytes. -/
def stageOf (i : Invocation) (env : List (String × String)) (input : Path)
    (bytes : Except FileFault (List UInt8)) : Stage :=
  let session := sessionOf i env
  let settings := session.settings
  let source := (bytes.toOption.bind fun bytes => (Session.textOf bytes).toOption)
  let assembling := s!"Assembling {input.text}"
  let log := shownLog i (assembling ::
    ((source.map (assemblyLog { session with source := some input })).getD []))
  match session.assembleBytes input bytes with
  | (_, .error failure) => .finish (.ofFailure i.verbose log "Assembly" failure)
  | (session, .ok result) =>
    if result.valid then
      match outputOf i settings input with
      | .error fault => .finish { exitCode := 1, stderr := log, escaped := some (.outputName fault) }
      | .ok output =>
        .write output.clean result.output fun
          | some fault => .ofFailure i.verbose log "Output" (.file fault)
          | none =>
            let wrote := s!"Wrote {result.lines.length} lines to {output.clean.text}"
            reportWritten (log ++ shownLog i [wrote]) settings input output result
    else
      let reading := session.reading.getD {}
      .finish (reportInvalid log settings input reading result)

/-! ## Arguments -/

/-- How the command ended. -/
inductive Ending where
  /-- The arguments were refused. -/
  | usage (fault : UsageFault)
  /-- A description was shown; its wording is not fixed. -/
  | help
  /-- It told what it did. -/
  | report (report : Report)

/-- The line that names the version. -/
def versionLine : String := "ic10min, version 1.0.0"

/-- A path that cannot even be looked at ends the command with a failure that nothing reports. -/
def unusablePath (path : String) : Ending :=
  .report { exitCode := 1, escaped := some (.file ⟨.nullCharacter, path⟩) }

/-- Checks the output file of an invocation, where `look` tells where a path leads: it is no
folder. -/
def checkOutput (look : String → Except FileCause Spot) (i : Invocation) : Option Ending :=
  match i.output with
  | none => none
  | some path =>
    match look path with
    | .ok .folder => some (.usage .badParameter)
    | .error .nullCharacter => some (unusablePath path)
    | _ => none

/-- Checks the input file of an invocation: there is one, it is a file, and there is no other. -/
def checkInput (look : String → Except FileCause Spot) (i : Invocation) : Except Ending Path :=
  match i.files with
  | [] => .error (.usage .missingParameter)
  | path :: more =>
    match look path with
    | .error .nullCharacter => .error (unusablePath path)
    | .ok (.file ..) => if more = [] then .ok (Path.ofText path) else .error (.usage .extraArgument)
    | _ => .error (.usage .badParameter)

/-- What the arguments ask for: the input file to assemble, or how the command ends without it. -/
def accept (look : String → Except FileCause Spot) (args : List String) :
    Except Ending (Invocation × Path) :=
  match Invocation.parse args with
  | .error fault => .error (.usage fault)
  | .ok i =>
    match i.notice with
    | some .version => .error (.report { stdout := [versionLine] })
    | some _ => .error .help
    | none =>
      match checkOutput look i with
      | some ending => .error ending
      | none => (checkInput look i).map fun input => (i, input)

/-! ## On a directory -/

/-- Performs a stage on a directory. -/
def Stage.perform (d : Directory) : Stage → Ending × Directory
  | .finish report => (.report report, d)
  | .write path content next =>
    match d.writeBytes path (encodeUtf8 content) with
    | .ok d => (.report (next none), d)
    | .error fault => (.report (next (some fault)), d)

/-- Runs the command on a directory. -/
def runIn (d : Directory) (env : List (String × String)) (args : List String) :
    Ending × Directory :=
  match accept d.locate args with
  | .error ending => (ending, d)
  | .ok (i, input) => (stageOf i env input (d.readBytes input)).perform d

end ChipAsm.Command
