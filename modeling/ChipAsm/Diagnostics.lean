/-!
# Diagnostics

Reading and assembling never stop at a problem of the source.  They record it and go on, so that
one run reports as many problems as possible.  A problem is a cause; its wording is
`Problem.message` and nothing else.  A remark is a problem at a source line, counted from zero.
-/

namespace ChipAsm

/-- What can be wrong with a source, or worth a warning. -/
inductive Problem where
  /-- A line that is not of the line grammar. -/
  | unrecognized
  /-- A definition without exactly a name and a value. -/
  | defineCount
  /-- An alias without exactly a name and a target. -/
  | aliasCount
  /-- A section without a name. -/
  | sectionName
  /-- A section with a name and one more word. -/
  | sectionCount
  /-- A section whose name is followed by something other than requirements. -/
  | sectionForm
  /-- A section that requires one that does not precede it. -/
  | missingPrerequisite (name : String)
  /-- A symbol that is defined again. -/
  | duplicateSymbol (name : String)
  /-- An alias that is bound again, not to a device. -/
  | duplicateAlias (name : String)
  /-- An alias that is bound again to a device. -/
  | reboundDevice (name : String)
  /-- An alias for something that is neither a device nor a register. -/
  | doubtfulTarget (target : String)
  /-- A source with errors was to be assembled. -/
  | unassemblable
  /-- An instruction that is not in the table. -/
  | unknownMnemonic (opcode : String)
  /-- An instruction with the wrong number of operands. -/
  | operandCount (mnemonic : String) (expected found : Nat)
  /-- A symbol of a section that is placed later. -/
  | useBeforeDefine (name : String)
  /-- A symbol of a section that is left out. -/
  | notIncluded (name : String)
  /-- An operand that no symbol stands for. -/
  | unresolved (name : String)
  /-- An operand of a kind that its place does not allow. -/
  | operandKind
  /-- The target of a relative branch is neither an integer nor a register. -/
  | branchTarget (text : String)
  /-- A remark with a wording of its own, such as a size advisory. -/
  | note (text : String)
deriving Repr, DecidableEq

/-- The wording of a problem. -/
def Problem.message : Problem → String
  | .unrecognized => "Unrecognized formatting or syntax error"
  | .defineCount => "Incorrect parameter count for define directive"
  | .aliasCount => "Incorrect parameter count for alias directive"
  | .sectionName => "Missing section name for section directive"
  | .sectionCount => "Invalid parameter count for section directive"
  | .sectionForm => "Invalid section definition"
  | .missingPrerequisite name => "Missing section prerequisite " ++ name
  | .duplicateSymbol name => "Duplicate Symbol " ++ name
  | .duplicateAlias name => "Duplicate alias " ++ name
  | .reboundDevice name => "Duplicate direct device pin alias " ++ name
  | .doubtfulTarget target => "Possible invalid alias target " ++ target
  | .unassemblable => "Unable to assemble due to parse errors"
  | .unknownMnemonic opcode => "Unrecognized mnemonic " ++ opcode
  | .operandCount mnemonic expected found =>
    s!"Invalid number of parameters for mnemonic {mnemonic}: expected {expected}, got {found}"
  | .useBeforeDefine name => "Use before define of symbol " ++ name
  | .notIncluded name => name ++ " not defined in included section"
  | .unresolved name => "Unable to resolve symbol " ++ name
  | .operandKind => "Parameter type mismatch"
  | .branchTarget text => "Invalid destination " ++ text ++ " for relative branch"
  | .note text => text

/-- A problem, and the source line it was found at if it belongs to one. -/
structure Remark where
  /-- What was found. -/
  problem : Problem
  /-- Where it was found. -/
  line : Option Int
deriving Repr, DecidableEq

/-- The text of a remark: the wording, followed by the line if there is one. -/
def Remark.render (remark : Remark) : String :=
  match remark.line with
  | none => remark.problem.message
  | some line => s!"{remark.problem.message} at line {line}"

/-- The remarks of a run, in the order they were made. -/
structure Diagnostics where
  /-- Remarks that leave the result valid. -/
  warnings : List Remark := []
  /-- Remarks that make the result invalid. -/
  errors : List Remark := []
deriving Repr, DecidableEq

namespace Diagnostics

/-- One more warning. -/
def warn (d : Diagnostics) (problem : Problem) (line : Option Int) : Diagnostics :=
  { d with warnings := d.warnings ++ [⟨problem, line⟩] }

/-- One more error. -/
def fail (d : Diagnostics) (problem : Problem) (line : Option Int) : Diagnostics :=
  { d with errors := d.errors ++ [⟨problem, line⟩] }

/-- The remarks of one run followed by those of another. -/
def merge (d e : Diagnostics) : Diagnostics :=
  ⟨d.warnings ++ e.warnings, d.errors ++ e.errors⟩

/-- No error was recorded. -/
def valid (d : Diagnostics) : Bool := d.errors.isEmpty

/-- The texts of the warnings. -/
def warningTexts (d : Diagnostics) : List String := d.warnings.map Remark.render

/-- The texts of the errors. -/
def errorTexts (d : Diagnostics) : List String := d.errors.map Remark.render

end Diagnostics

end ChipAsm
