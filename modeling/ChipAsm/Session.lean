import ChipAsm.Directory
import ChipAsm.Settings
import ChipAsm.Text.Utf8

/-!
# Sessions

A session assembles one source after another with the same options, settings and table, and keeps
the last reading, the last result and the path of the last source file.  A strict session fails
where the source has errors; one that is not strict returns the invalid result.

Every operation returns the session beside its outcome, because a failure does not undo what was
kept before it.  A file becomes the source file before it is read.  The reading is kept before a
strict session fails on it, and so is a result.  A run that stops on a number keeps the reading with
the sections placed so far and leaves the last result as it was.
-/

namespace ChipAsm

open ChipAsm.Number ChipAsm.Text

/-- Why an operation failed. -/
inductive Failure where
  /-- The source of the given name was read with errors. -/
  | reading (source : String) (diagnostics : Diagnostics)
  /-- The source of the given name was assembled with errors. -/
  | assembly (source : String) (diagnostics : Diagnostics)
  /-- A number could not be read or written. -/
  | numeral (fault : NumeralFault)
  /-- A file could not be opened. -/
  | file (fault : FileFault)
  /-- A file is no text. -/
  | undecodable (fault : Utf8Fault)
  /-- There is no result to write. -/
  | nothingAssembled
  /-- There is neither a path to write to nor a source file to derive one from. -/
  | noOutputPath
  /-- The name of the output cannot be the name of a file. -/
  | outputName (fault : NameFault)
deriving Repr, DecidableEq

/-- A headline with one indented line for every error. -/
def failureText (headline : String) (errors : List String) : String :=
  joinLines (headline :: errors.map ("  " ++ ·))

/-- The message of a failure. -/
def Failure.message : Failure → String
  | .reading source d => failureText ("failed to parse " ++ source) d.errorTexts
  | .assembly source d => failureText ("failed to assemble " ++ source) d.errorTexts
  | .numeral fault => fault.message
  | .file fault => fault.message
  | .undecodable fault => fault.message
  | .nothingAssembled => "nothing has been assembled yet"
  | .noOutputPath => "no output path given and no source file to derive one from"
  | .outputName fault => fault.message

/-- A session. -/
structure Session where
  /-- What every run is asked to do. -/
  options : Options := {}
  /-- The settings. -/
  settings : Settings := {}
  /-- The instruction table. -/
  table : Table
  /-- Errors of the source are failures. -/
  strict : Bool := false
  /-- The last reading. -/
  reading : Option Reading := none
  /-- The last result. -/
  result : Option Assembly := none
  /-- The path of the last source file. -/
  source : Option Path := none

namespace Session

/-- The name of the source in messages. -/
def sourceName (s : Session) : String :=
  match s.source with
  | some path => path.text
  | none => "<input>"

/-- Reads a source. -/
def read (s : Session) (source : String) : Session × Except Failure Reading :=
  let reading := Reading.of source
  let s := { s with reading := some reading }
  if s.strict && !reading.valid then
    (s, .error (.reading s.sourceName reading.diagnostics))
  else (s, .ok reading)

/-- Assembles a reading. -/
def run (s : Session) (reading : Reading) : Session × Except Failure Assembly :=
  let run := reading.assemble s.table s.settings.advisories s.options
  let s := { s with reading := some run.reading }
  match run.result with
  | .error fault => (s, .error (.numeral fault))
  | .ok result =>
    let s := { s with result := some result }
    if s.strict && !result.valid then
      (s, .error (.assembly s.sourceName result.diagnostics))
    else (s, .ok result)

/-- Assembles a source. -/
def assemble (s : Session) (source : String) : Session × Except Failure Assembly :=
  match s.read source with
  | (s, .error failure) => (s, .error failure)
  | (s, .ok reading) => s.run reading

/-! ## Files -/

/-- The text of a file with the given bytes, its line ends unified. -/
def textOf (bytes : List UInt8) : Except Failure String :=
  match decodeUtf8 bytes with
  | .ok text => .ok (unifyNewlines text)
  | .error fault => .error (.undecodable fault)

/-- Assembles the source file at a path, which was found to hold the given bytes. -/
def assembleBytes (s : Session) (path : Path) (bytes : Except FileFault (List UInt8)) :
    Session × Except Failure Assembly :=
  let s := { s with source := some path }
  match bytes with
  | .error fault => (s, .error (.file fault))
  | .ok bytes =>
    match textOf bytes with
    | .error failure => (s, .error failure)
    | .ok text => s.assemble text

/-- Assembles the source file at a path of a directory. -/
def assembleFile (s : Session) (d : Directory) (path : Path) :
    Session × Except Failure Assembly :=
  s.assembleBytes path (d.readBytes path)

/-- What is to be written, and where: to the given path, or to the one derived from the source
file. -/
def output (s : Session) (path : Option Path) : Except Failure (Path × Assembly) :=
  match s.result with
  | none => .error .nothingAssembled
  | some result =>
    match path, s.source with
    | some path, _ => .ok (path.clean, result)
    | none, none => .error .noOutputPath
    | none, some source =>
      match s.settings.outputPath source with
      | .error fault => .error (.outputName fault)
      | .ok path => .ok (path.clean, result)

/-- Writes the last result into a directory; the outcome is the path that was written. -/
def write (s : Session) (d : Directory) (path : Option Path) : Directory × Except Failure Path :=
  match s.output path with
  | .error failure => (d, .error failure)
  | .ok (path, result) =>
    match d.writeBytes path (encodeUtf8 result.output) with
    | .error fault => (d, .error (.file fault))
    | .ok d => (d, .ok path)

end Session

end ChipAsm
