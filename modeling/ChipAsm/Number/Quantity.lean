import ChipAsm.Number.Decimal
import ChipAsm.Number.Numeral

/-!
# Quantities

The value of a constant is a whole number if it is written in hexadecimal, and a double if it is
written in decimal.  `Quantity.text` shows which of the two it is: a double always has a point, an
exponent or a name.  `Quantity.plain` is the operand that stands for it: a number without a
fractional part is written as an integer.
-/

namespace ChipAsm.Number

/-- The value of a constant. -/
inductive Quantity where
  /-- A whole number. -/
  | whole (n : Int)
  /-- A double. -/
  | double (x : Double)
deriving Repr, DecidableEq

/-- The double nearest to an integer; one that is too large has none. -/
def Double.ofInt (n : Int) : Except NumeralFault Double :=
  match Double.ofRatio (n < 0) n.natAbs 1 with
  | .infinite _ => .error .beyondDouble
  | x => .ok x

namespace Quantity

/-- Reads a hexadecimal or a decimal numeral. -/
def read? (token : String) : Option Quantity :=
  match readHex? token with
  | some n => some (.whole n)
  | none => (Numeral.read? token).map fun numeral => .double numeral.toDouble

/-- The text of a quantity. -/
def text : Quantity → Except NumeralFault String
  | .whole n => writeInt n
  | .double x => .ok x.text

/-- The integer that a quantity is, if the double nearest to it has no fractional part. -/
def whole? : Quantity → Except NumeralFault (Option Int)
  | .whole n => (Double.ofInt n).map fun x => x.whole?.map fun _ => n
  | .double x => .ok x.whole?

/-- The operand for a quantity. -/
def plain (quantity : Quantity) : Except NumeralFault String :=
  quantity.whole?.bind fun
    | some n => writeInt n
    | none => quantity.text

end Quantity

end ChipAsm.Number
