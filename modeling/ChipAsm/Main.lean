import ChipAsm.Command

/-!
# The program

Runs the command on the files of the system.  Nothing is decided here: the arguments are understood,
the source is assembled and the report is made by `ChipAsm.Command`.
-/

namespace ChipAsm.Command

/-- Why the system could not open a file. -/
def causeOf : IO.Error → FileCause
  | .noFileOrDirectory .. => .notFound
  | .inappropriateType _ code _ => if code = 21 then .isFolder else .notFolder
  | .invalidArgument _ code _ => if code = 36 then .nameTooLong else .notFound
  | _ => .notFound

/-- The bytes of a file of the system. -/
def readSystem (path : String) : IO (Except FileCause (List UInt8)) := do
  try return .ok (← IO.FS.readBinFile path).toList
  catch e => return .error (causeOf e)

/-- Where a path leads in the system. -/
def lookSystem (path : String) : IO (Except FileCause Spot) := do
  match ← readSystem path with
  | .ok bytes => return .ok (.file [path] bytes)
  | .error .isFolder => return .ok .folder
  | .error cause => return .error cause

/-- Writes a file of the system; the outcome is what went wrong, if anything did. -/
def writeSystem (path content : String) : IO (Option FileFault) := do
  try
    IO.FS.writeFile path content
    return none
  catch e => return some ⟨causeOf e, path⟩

/-- Prints a report. -/
def print (report : Report) : IO Unit := do
  IO.print (transcript report.stdout)
  IO.eprint (transcript report.stderr)
  if report.paused then
    IO.println "Press Enter to continue"
    let _ ← (← IO.getStdin).getLine

/-- The description of the command. -/
def helpLines : List String :=
  ["Usage: ic10min [OPTIONS] INPUT_FILE", "",
    "  -c, --comments         Keep trailing comments in the output",
    "  -s, --sections TEXT    Only assemble this section and the sections it requires",
    "  -m, --keep-macros      Do not expand calls",
    "  -o, --output FILE      Output file",
    "  --pause / --no-pause   Wait for Enter after reporting warnings or errors",
    "  -v, --verbose          Verbose output",
    "  --version              Show the version",
    "  --help                 Show this description"]

/-- The settings that the environment of the system holds. -/
def systemEnvironment : IO (List (String × String)) := do
  let mut env := []
  for name in ["IC10_INLINER_MARKER", "IC10_INLINER_EXT_LENGTH", "IC10_INLINER_PAUSE"] do
    if let some value ← IO.getEnv name then env := env ++ [(name, value)]
  return env

/-- Runs the command on the files of the system. -/
def runSystem (args : List String) : IO UInt32 := do
  let paths := match Invocation.parse args with
    | .ok i => i.files.take 1 ++ i.output.toList
    | .error _ => []
  let seen ← paths.mapM fun path => return (path, ← lookSystem path)
  let look := fun path => ((seen.find? (·.1 = path)).map Prod.snd).getD (.error .notFound)
  match accept look args with
  | .error (.usage _) => IO.eprintln "Error: invalid usage"; return 2
  | .error .help => helpLines.forM IO.println; return 0
  | .error (.report report) => print report; return report.exitCode.toUInt32
  | .ok (i, input) =>
    let bytes ← readSystem input.text
    let found := match bytes with
      | .ok bytes => .ok bytes
      | .error cause => .error ⟨cause, input.text⟩
    let report ← match stageOf i (← systemEnvironment) input found with
      | .finish report => pure report
      | .write path content next => pure (next (← writeSystem path.text content))
    print report
    return report.exitCode.toUInt32

end ChipAsm.Command

/-- Runs the command. -/
def main (args : List String) : IO UInt32 := ChipAsm.Command.runSystem args
