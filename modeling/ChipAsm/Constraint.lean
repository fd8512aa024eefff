/-!
# Operand constraints

Every place of an instruction has a constraint: a set of bits that tells which kinds of operand may
stand there and how the operand is treated.  Bits beyond the six that have a meaning are kept and
disregarded.
-/

namespace ChipAsm

/-- The kind that an operand turned out to be of. -/
inductive Kind where
  /-- A number. -/
  | constant
  /-- A device pin. -/
  | device
  /-- A register. -/
  | register
  /-- A word that stands for nothing known. -/
  | unknown
deriving Repr, DecidableEq

/-- The bits of a constraint that allow operands of a kind. -/
def Kind.flag : Kind → Nat
  | .constant => 1
  | .device => 2
  | .register => 4
  | .unknown => 0

/-- What may stand at a place of an instruction. -/
structure Constraint where
  /-- The bits. -/
  bits : Nat
deriving Repr, DecidableEq

namespace Constraint

/-- The number of bits that have a meaning. -/
def meaningfulBits : Nat := 6

/-- The constraint that a number stands for.  A negative number is read in two's complement, over
the bits that have a meaning or, where those are too few for it, over as many as its magnitude
has. -/
def ofInt (n : Int) : Constraint :=
  if n < 0 then
    let width :=
      if n.natAbs ≤ Nat.pow 2 meaningfulBits then meaningfulBits else n.natAbs.log2 + 1
    ⟨Nat.pow 2 width - n.natAbs⟩
  else ⟨n.natAbs⟩

/-- Operands of the kind may stand here. -/
def allows (c : Constraint) : Kind → Bool
  | .constant => c.bits.testBit 0
  | .device => c.bits.testBit 1
  | .register => c.bits.testBit 2
  | .unknown => false

/-- Words that stand for nothing known may stand here. -/
def allowsUnknown (c : Constraint) : Bool := c.bits.testBit 3

/-- Aliases and symbols are replaced here. -/
def substitutes (c : Constraint) : Bool := !c.bits.testBit 4

/-- The operand is an address that is made relative to the instruction. -/
def isRelative (c : Constraint) : Bool := c.bits.testBit 5

end Constraint

end ChipAsm
