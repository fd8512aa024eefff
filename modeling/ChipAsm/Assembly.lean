import ChipAsm.Layout
import ChipAsm.Operand
import ChipAsm.Reading
import ChipAsm.Selection
import ChipAsm.Signature

/-!
# Assembling

A run takes a program that was read without errors, chooses sections, places them, and turns each
instruction into a line of output.  For every operand it replaces an alias, tells what the operand
is, replaces hexadecimal numerals and symbols, checks the constraint of the place, expands a call,
and makes the target of a relative branch relative.

An instruction sees the aliases and symbols of its own section and of those placed before it; of
several sections that bind a name the first placed one counts.

An instruction that is not in the table, or has the wrong number of operands, gives an error and no
line.  Any other gives exactly one line, whatever errors its operands cause.

A number that cannot be read or written ends the run.  The sections placed until then keep their
offsets.
-/

namespace ChipAsm

open ChipAsm.Number ChipAsm.Token

/-- What a run is asked to do. -/
structure Options where
  /-- The names of the sections to take; none means all. -/
  sections : List String := []
  /-- Calls are left as they are. -/
  keepCalls : Bool := false
  /-- The comment of an instruction is put behind its line. -/
  comments : Bool := false
deriving Repr, DecidableEq

/-- A warning that is given when the output reaches a number of lines. -/
structure Advisory where
  /-- The number of lines. -/
  threshold : Int
  /-- The warning. -/
  message : String
deriving Repr, DecidableEq

/-- The two sizes that the game sets: the limit of the base game is 128 lines, and a widespread
modification raises it to 512. -/
def Advisory.standard : List Advisory :=
  [⟨129, "Exceeded vanilla IC10 LoC cap"⟩, ⟨512, "Exceeded modded More Lines of Code LoC cap"⟩]

/-! ## Scopes -/

/-- What an instruction sees. -/
structure Scope where
  /-- Its own section and those placed before it, in the order of placing. -/
  visible : List Section
  /-- All sections of the run. -/
  chosen : List Section
  /-- The names of all symbols of the program. -/
  symbolNames : List String

namespace Scope

/-- What a token stands for as an alias; itself if it is none. -/
def unalias (scope : Scope) (token : String) : String :=
  (scope.visible.findSome? fun s => s.alias? token).getD token

/-- The offset of the section with the given ordinal. -/
def offsetOf (scope : Scope) (ordinal : Nat) : Nat :=
  ((scope.visible.find? fun s => s.ordinal = ordinal).map Section.offset).getD 0

/-- The symbol that a name stands for, with the offset of the section it belongs to. -/
def find? (scope : Scope) (name : String) : Option Found :=
  (scope.visible.findSome? fun s => s.symbol? name).map fun symbol =>
    ⟨symbol, scope.offsetOf symbol.home⟩

/-- Why a name that the program defines is not seen. -/
def hidden (scope : Scope) (name : String) : List Problem :=
  if name ∈ scope.symbolNames then
    if scope.chosen.any (·.defines name) then [.useBeforeDefine name] else [.notIncluded name]
  else []

/-- What is wrong with a name that no symbol was found for. -/
def missing (scope : Scope) (name : String) (allowsUnknown : Bool) : List Problem :=
  scope.hidden name ++ if allowsUnknown then [] else [.unresolved name]

/-- What is wrong with a token when it is looked up; only words are. -/
def lookupProblems (scope : Scope) (token : String) (allowsUnknown : Bool) : List Problem :=
  match Shape.of token with
  | .word => if (scope.find? token).isSome then [] else scope.missing token allowsUnknown
  | _ => []

end Scope

/-! ## Operands -/

/-- A text with the problems that were found on the way to it. -/
structure Resolved where
  /-- The problems. -/
  problems : List Problem
  /-- The text. -/
  text : String
deriving Repr, DecidableEq

/-- The target of a branch as a distance from the instruction at `address`. -/
def relativeTo (address : Int) (text : String) : Except NumeralFault Resolved :=
  match readInt? text with
  | some target =>
    target.bind fun target => (writeInt (target - address)).map fun distance => ⟨[], distance⟩
  | none => .ok ⟨if isRegister text then [] else [.branchTarget text], text⟩

/-- The text of an operand at a place with the given constraint, in the instruction at `address`. -/
def resolveOperand (options : Options) (scope : Scope) (address : Int) (token : String)
    (c : Constraint) : Except NumeralFault Resolved :=
  let token := if c.substitutes then scope.unalias token else token
  (Operand.classify token scope.find? c.substitutes).bind fun operand =>
    let problems := scope.lookupProblems token c.allowsUnknown
      ++ if operand.satisfies c then [] else [.operandKind]
    let text := if options.keepCalls then operand.text else expand operand.text
    if c.isRelative then
      (relativeTo address text).map fun r => ⟨problems ++ r.problems, r.text⟩
    else .ok ⟨problems, text⟩

/-- The texts of operands at places with the given constraints. -/
def resolveOperands (options : Options) (scope : Scope) (address : Int) :
    List (String × Constraint) → Except NumeralFault (List Resolved)
  | [] => .ok []
  | (token, c) :: rest =>
    (resolveOperand options scope address token c).bind fun r =>
      (resolveOperands options scope address rest).map (r :: ·)

/-! ## Instructions -/

/-- What becomes of an instruction. -/
structure Outcome where
  /-- The instruction. -/
  instruction : Instruction
  /-- What is wrong with it. -/
  problems : List Problem
  /-- Its line of output. -/
  line : Option String
deriving Repr, DecidableEq

/-- A line of output: the mnemonic and the operands with a space between any two, and the comment if
it is asked for. -/
def renderLine (options : Options) (instruction : Instruction) (operands : List String) : String :=
  let body := " ".intercalate (instruction.opcode :: operands)
  match options.comments, instruction.comment with
  | true, some comment => body ++ " # " ++ comment
  | _, _ => body

/-- What becomes of an instruction of a section at `offset`. -/
def assembleLine (table : Table) (options : Options) (scope : Scope) (offset : Nat)
    (instruction : Instruction) : Except NumeralFault Outcome :=
  match table.lookup instruction.opcode with
  | none => .ok ⟨instruction, [.unknownMnemonic instruction.opcode], none⟩
  | some signature =>
    if signature.arity ≠ instruction.operands.length then
      .ok ⟨instruction,
        [.operandCount signature.mnemonic signature.arity instruction.operands.length], none⟩
    else
      (resolveOperands options scope (instruction.position + offset)
          (instruction.operands.zip signature.constraints)).map fun resolved =>
        ⟨instruction, resolved.flatMap Resolved.problems,
          some (renderLine options instruction (resolved.map Resolved.text))⟩

/-- What becomes of the instructions of a section at `offset`. -/
def assembleLines (table : Table) (options : Options) (scope : Scope) (offset : Nat) :
    List Instruction → Except NumeralFault (List Outcome)
  | [] => .ok []
  | instruction :: rest =>
    (assembleLine table options scope offset instruction).bind fun outcome =>
      (assembleLines table options scope offset rest).map (outcome :: ·)

/-! ## Sections -/

/-- A run that could not go on. -/
structure Stop where
  /-- Why it could not. -/
  fault : NumeralFault
  /-- The number of sections that had been placed. -/
  placed : Nat
deriving Repr, DecidableEq

/-- What becomes of the instructions of the sections behind `before`, when all of `chosen` are in
the run. -/
def assembleSections (table : Table) (options : Options) (symbolNames : List String)
    (chosen before : List Section) : List Section → Except Stop (List Outcome)
  | [] => .ok []
  | s :: rest =>
    let visible := before ++ [s]
    match assembleLines table options ⟨visible, chosen, symbolNames⟩ s.offset s.lines with
    | .error fault => .error ⟨fault, visible.length⟩
    | .ok outcomes =>
      (assembleSections table options symbolNames chosen visible rest).map (outcomes ++ ·)

/-! ## Runs -/

/-- The errors that the outcomes record, each at the line of its instruction. -/
def errorsOf (outcomes : List Outcome) : List Remark :=
  outcomes.flatMap fun o => o.problems.map fun p => ⟨p, some o.instruction.sourceLine⟩

/-- The lines of output with the source line of each. -/
def emitted (outcomes : List Outcome) : List (String × Nat) :=
  outcomes.filterMap fun o => o.line.map fun line => (line, o.instruction.sourceLine)

/-- The advisories for lines of output, `count` of which have been given before. -/
def advise (advisories : List Advisory) (count : Nat) : List (String × Nat) → List Remark
  | [] => []
  | (_, sourceLine) :: rest =>
    ((advisories.filter fun a => a.threshold = ((count + 1 : Nat) : Int)).map fun a =>
        ⟨.note a.message, some sourceLine⟩)
      ++ advise advisories (count + 1) rest

/-- The result of a run. -/
structure Assembly where
  /-- The lines of output. -/
  lines : List String := []
  /-- The remarks of reading and of the run. -/
  diagnostics : Diagnostics := {}
  /-- The placed sections. -/
  sections : List Section := []
deriving Repr, DecidableEq

namespace Assembly

/-- No error was recorded. -/
def valid (a : Assembly) : Bool := a.diagnostics.valid

/-- The text of the output. -/
def output (a : Assembly) : String := Text.joinLines a.lines

/-- Name, offset and size of every placed section. -/
def placements (a : Assembly) : List (String × Nat × Nat) :=
  a.sections.map fun s => (s.name, s.offset, s.size)

/-- The result for a source that was read with errors. -/
def refused (reading : Reading) : Assembly where
  diagnostics := reading.diagnostics.fail .unassemblable none

/-- The result that the outcomes of a run add up to. -/
def ofOutcomes (advisories : List Advisory) (reading : Reading) (chosen : List Section)
    (outcomes : List Outcome) : Assembly where
  lines := (emitted outcomes).map Prod.fst
  diagnostics :=
    reading.diagnostics.merge ⟨advise advisories 0 (emitted outcomes), errorsOf outcomes⟩
  sections := chosen

end Assembly

/-- A run, finished or not. -/
structure Run where
  /-- What was read, with the offsets of the placed sections. -/
  reading : Reading
  /-- The placed sections. -/
  placed : List Section
  /-- The result, or why there is none. -/
  result : Except NumeralFault Assembly

/-- What was read, with the first `count` of the chosen sections placed. -/
def Reading.place (reading : Reading) (chosen : Section → Bool) (count : Nat) : Reading :=
  { reading with program := reading.program.place chosen count }

/-- Assembles what was read. -/
def Reading.assemble (reading : Reading) (table : Table) (advisories : List Advisory)
    (options : Options) : Run :=
  if reading.valid then
    let names := wanted reading.program.sections options.sections
    let isChosen := isChosen options.sections names
    let placed := reading.place isChosen reading.program.sections.length
    let chosen := placed.program.sections.filter isChosen
    match assembleSections table options reading.program.symbolNames chosen [] chosen with
    | .ok outcomes => ⟨placed, chosen, .ok (.ofOutcomes advisories reading chosen outcomes)⟩
    | .error stop =>
      ⟨reading.place isChosen stop.placed, chosen.take stop.placed, .error stop.fault⟩
  else ⟨reading, [], .ok (.refused reading)⟩

end ChipAsm
