import ChipAsm.Diagnostics
import ChipAsm.Line
import ChipAsm.Section
import ChipAsm.Text.Newline
import ChipAsm.Token.Shape

/-!
# Reading a source

A source is read line by line.  The reader holds the section it is in, the position that the next
instruction gets there, the sections it has closed, and the names it has seen.  A line that cannot be
used is recorded as an error and has no other effect.

Three directives change the program.  `define` adds a constant.  `alias` binds a name to an operand;
an alias of a device is also kept as an instruction, because the chip binds devices when it runs.
`section` closes the current section and starts another.  Any other line may define a label and hold
one instruction.

A section joins the program when it is closed, if it holds anything.  Its name is recorded if it
joins or was declared, so that later sections may require it.

A reader may go on to another text.  It then counts lines onward and stays in its current section,
which joins the program once more when it is closed again.
-/

namespace ChipAsm

open ChipAsm.Text ChipAsm.Token

/-- The outcome of reading a source. -/
structure Reading where
  /-- The program. -/
  program : Program := {}
  /-- What was found wrong. -/
  diagnostics : Diagnostics := {}
  /-- The names of the closed sections, each once, in the order of the source. -/
  sectionNames : List String := []
deriving Repr, DecidableEq

/-- No error was recorded. -/
def Reading.valid (r : Reading) : Bool := r.diagnostics.valid

/-- A name added at the end of a list that does not hold it. -/
def addName (name : String) (names : List String) : List String :=
  if name ∈ names then names else names ++ [name]

/-- A source that has been read up to some line. -/
structure Reader where
  /-- The sections that joined the program before the current one was started. -/
  closed : List Section := []
  /-- The section that lines go to. -/
  current : Section := { name := Section.defaultName }
  /-- The position of the next instruction in the current section. -/
  position : Nat := 0
  /-- The current section was started by a directive. -/
  declared : Bool := false
  /-- How often the current section has joined the program. -/
  joined : Nat := 0
  /-- The names of the symbols. -/
  symbolNames : List String := []
  /-- The names of the aliases. -/
  aliasNames : List String := []
  /-- The names of the closed sections. -/
  sectionNames : List String := []
  /-- What was found wrong. -/
  diagnostics : Diagnostics := {}
  /-- The number of the next line. -/
  line : Nat := 0
deriving Repr, DecidableEq

namespace Reader

/-- The sections that have joined the program. -/
def sections (r : Reader) : List Section := r.closed ++ List.replicate r.joined r.current

/-- What has been read. -/
def reading (r : Reader) : Reading where
  program := ⟨r.sections, r.symbolNames, r.aliasNames⟩
  diagnostics := r.diagnostics
  sectionNames := r.sectionNames

/-- Records an error at the line. -/
def fail (r : Reader) (problem : Problem) : Reader :=
  { r with diagnostics := r.diagnostics.fail problem (some r.line) }

/-- Records a warning at the line. -/
def warn (r : Reader) (problem : Problem) : Reader :=
  { r with diagnostics := r.diagnostics.warn problem (some r.line) }

/-- Adds a symbol to the current section, unless its name is taken anywhere in the program. -/
def addSymbol (r : Reader) (symbol : Symbol) : Reader :=
  if symbol.name ∈ r.symbolNames then r.fail (.duplicateSymbol symbol.name)
  else
    { r with
      current := r.current.addSymbol symbol
      symbolNames := r.symbolNames ++ [symbol.name] }

/-- Adds an instruction to the current section. -/
def addLine (r : Reader) (opcode : String) (operands : List String) (comment : Option String) :
    Reader :=
  { r with
    current := r.current.addLine ⟨opcode, operands, r.line, r.position, comment⟩
    position := r.position + 1 }

/-- Closes the current section. -/
def close (r : Reader) : Reader :=
  if r.current.isEmpty then
    if r.declared then { r with sectionNames := addName r.current.name r.sectionNames } else r
  else
    { r with
      joined := r.joined + 1
      sectionNames := addName r.current.name r.sectionNames }

/-- Starts a section. -/
def start (r : Reader) (name : String) (required : List String) : Reader :=
  { r with
    closed := r.sections
    current := { name, ordinal := r.current.ordinal + 1, required }
    position := 0
    declared := true
    joined := 0 }

/-! ## Lines -/

/-- `define NAME VALUE` -/
def define (r : Reader) (operands : List String) : Reader :=
  match operands with
  | [name, value] => r.addSymbol (.constant r.current.ordinal name value)
  | _ => r.fail .defineCount

/-- Records that an alias name is bound, and what is to be said if it was bound before. -/
def noteAlias (r : Reader) (name target : String) : Reader :=
  if name ∈ r.aliasNames then
    if isDevice target then r.warn (.reboundDevice name) else r.fail (.duplicateAlias name)
  else { r with aliasNames := r.aliasNames ++ [name] }

/-- Keeps the alias of a device as an instruction, and doubts any other that is no register. -/
def keepAlias (r : Reader) (name target : String) (comment : Option String) : Reader :=
  if isDevice target then r.addLine "alias" [name, target] comment
  else if isRegister target then r
  else r.warn (.doubtfulTarget target)

/-- `alias NAME TARGET` -/
def addAlias (r : Reader) (operands : List String) (comment : Option String) : Reader :=
  match operands with
  | [name, target] =>
    let r := (r.noteAlias name target).keepAlias name target comment
    { r with current := r.current.bindAlias name target }
  | _ => r.fail .aliasCount

/-- The first required section that has not been closed, names compared without regard to case. -/
def missing? (r : Reader) (required : List String) : Option String :=
  let known := r.sectionNames.map lower
  required.find? fun name => !known.contains (lower name)

/-- The sections that the words behind the name of a section require, and what is wrong with those
words. -/
def requirements (r : Reader) : List String → List String × Option Problem
  | [] => ([], none)
  | [_] => ([], some .sectionCount)
  | word :: required =>
    if lower word = "requires" then (required, (r.missing? required).map .missingPrerequisite)
    else ([], some .sectionForm)

/-- `section NAME`, optionally followed by `requires` and names. -/
def beginSection (r : Reader) (operands : List String) : Reader :=
  match operands with
  | [] => r.fail .sectionName
  | name :: words =>
    let r := r.close
    let (required, problem) := r.requirements words
    let r := match problem with
      | some problem => r.fail problem
      | none => r
    r.start name required

/-- A label marks the position of the next instruction. -/
def mark (r : Reader) (label : Option String) : Reader :=
  match label with
  | some name => r.addSymbol (.label r.current.ordinal name r.position)
  | none => r

/-- A line without a directive. -/
def code (r : Reader) (label opcode : Option String) (operands : List String)
    (comment : Option String) : Reader :=
  let r := r.mark label
  match opcode with
  | some opcode => r.addLine opcode operands comment
  | none => r

/-- Takes in a line of the grammar. -/
def take (r : Reader) (line : Line) : Reader :=
  match line.head with
  | .directive word =>
    if word = "define" then r.define line.operands
    else if word = "alias" then r.addAlias line.operands line.comment
    else if word = "section" then r.beginSection line.operands
    else r
  | .code label opcode => r.code label opcode line.operands line.comment

/-- Takes in a line of text, stripped of the blanks around it. -/
def takeText (r : Reader) (cs : List Char) : Reader :=
  match cs with
  | [] => r
  | _ =>
    match Line.ofChars? cs with
    | some line => r.take line
    | none => r.fail .unrecognized

/-- Reads one line. -/
def step (r : Reader) (text : List Char) : Reader :=
  let r := r.takeText (stripChars text)
  { r with line := r.line + 1 }

/-- Reads all lines of a source and closes the section that is open at its end. -/
def read (r : Reader) (source : String) : Reader :=
  ((linesOf source).foldl step r).close

end Reader

/-- Reads a source. -/
def Reading.of (source : String) : Reading := (Reader.read {} source).reading

end ChipAsm
