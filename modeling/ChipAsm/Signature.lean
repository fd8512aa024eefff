import ChipAsm.Constraint
import ChipAsm.Number.Decimal
import ChipAsm.Number.Whole
import ChipAsm.Text.Case
import ChipAsm.Text.Quoted

/-!
# Instruction signatures

A signature is a mnemonic in lower case with a constraint for each operand.  A table holds at most
one signature for each mnemonic, in the order in which the mnemonics were first added; adding a
mnemonic again replaces its signature where it stands.  Adding strips the mnemonic of blanks,
looking up does not; both disregard case.
-/

namespace ChipAsm

open ChipAsm.Text ChipAsm.Number

/-- The signature of an instruction. -/
structure Signature where
  /-- The mnemonic in lower case. -/
  mnemonic : String
  /-- A constraint for each operand. -/
  constraints : List Constraint
deriving Repr, DecidableEq

/-- The number of operands. -/
def Signature.arity (s : Signature) : Nat := s.constraints.length

/-- The text that shows a signature. -/
def Signature.shown (s : Signature) : String :=
  s!"InstructionSignature({quoted s.mnemonic}, arity={s.arity})"

/-! ## Values offered as constraints -/

/-- A plain value. -/
inductive Literal where
  /-- The absent value. -/
  | nothing
  /-- A truth value. -/
  | truth (b : Bool)
  /-- A whole number. -/
  | whole (n : Int)
  /-- A double. -/
  | double (x : Double)
  /-- A text. -/
  | text (s : String)
deriving Repr, DecidableEq

/-- The text that shows a plain value. -/
def Literal.shown : Literal → String
  | .nothing => "None"
  | .truth b => if b then "True" else "False"
  | .whole n => intText n
  | .double x => x.text
  | .text s => quoted s

/-- What is offered as the constraint of an operand. -/
inductive Offer where
  /-- A constraint. -/
  | constraint (c : Constraint)
  /-- A value that is no constraint. -/
  | literal (v : Literal)
deriving Repr, DecidableEq

/-- Why a signature is refused. -/
inductive SignatureFault where
  /-- The mnemonic has nothing but blanks. -/
  | emptyMnemonic
  /-- Something is offered that is no constraint. -/
  | notConstraint (value : Literal) (mnemonic : String)
deriving Repr, DecidableEq

/-- The message of a fault. -/
def SignatureFault.message : SignatureFault → String
  | .emptyMnemonic => "mnemonic must not be empty"
  | .notConstraint value mnemonic =>
    s!"invalid parameter constraint {value.shown} for mnemonic '{mnemonic}'"

/-- The constraints that are offered, or the first value that is none. -/
def constraintsOf : List Offer → Except Literal (List Constraint)
  | [] => .ok []
  | .constraint c :: offers => (constraintsOf offers).map (c :: ·)
  | .literal v :: _ => .error v

/-- The signature for a mnemonic and the constraints that are offered. -/
def Signature.make (mnemonic : String) (offers : List Offer) : Except SignatureFault Signature :=
  if stripChars mnemonic.toList = [] then .error .emptyMnemonic
  else
    match constraintsOf offers with
    | .error v => .error (.notConstraint v mnemonic)
    | .ok constraints => .ok ⟨lower (strip mnemonic), constraints⟩

/-! ## Tables -/

/-- An instruction table. -/
structure Table where
  /-- The signatures in the order in which their mnemonics were first added. -/
  signatures : List Signature := []
deriving Repr, DecidableEq

/-- A signature put in the place of the one with its mnemonic, or at the end. -/
def insertSignature (s : Signature) : List Signature → List Signature
  | [] => [s]
  | t :: rest => if t.mnemonic = s.mnemonic then s :: rest else t :: insertSignature s rest

namespace Table

/-- The table with one more signature. -/
def insert (table : Table) (s : Signature) : Table := ⟨insertSignature s table.signatures⟩

/-- Adds a mnemonic with the constraints that are offered. -/
def add (table : Table) (mnemonic : String) (offers : List Offer) :
    Except SignatureFault (Table × Signature) :=
  (Signature.make mnemonic offers).map fun s => (table.insert s, s)

/-- Adds entries up to the first that is refused. -/
def extend (table : Table) : List (String × List Offer) → Table × Option SignatureFault
  | [] => (table, none)
  | (mnemonic, offers) :: entries =>
    match table.add mnemonic offers with
    | .ok (table, _) => table.extend entries
    | .error fault => (table, some fault)

/-- The signature of a mnemonic. -/
def lookup (table : Table) (mnemonic : String) : Option Signature :=
  let key := lower mnemonic
  table.signatures.find? fun s => s.mnemonic = key

/-- The table has a signature for the mnemonic. -/
def contains (table : Table) (mnemonic : String) : Bool := (table.lookup mnemonic).isSome

/-- The mnemonics in order. -/
def mnemonics (table : Table) : List String := table.signatures.map Signature.mnemonic

/-- The number of mnemonics. -/
def size (table : Table) : Nat := table.signatures.length

end Table

end ChipAsm
