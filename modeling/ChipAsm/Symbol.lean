import ChipAsm.Number.Quantity

/-!
# Symbols

A symbol is a constant or a label.  A constant keeps the text of its definition; where that is a
numeral the constant has its value, and otherwise it stands for its text.  A label holds a position
in its section, and stands for that position moved by the offset of the section.

A symbol belongs to the section that is open where it is made.  It knows that section by its ordinal,
since several sections may have the same name.
-/

namespace ChipAsm

open ChipAsm.Number

/-- A named constant or label. -/
inductive Symbol where
  /-- A constant with the text of its definition. -/
  | constant (home : Nat) (name text : String)
  /-- A label with the position in its section that it marks. -/
  | label (home : Nat) (name : String) (position : Int)
deriving Repr, DecidableEq

namespace Symbol

/-- The ordinal of the section that a symbol belongs to. -/
def home : Symbol → Nat
  | .constant home .. => home
  | .label home .. => home

/-- The name of a symbol. -/
def name : Symbol → String
  | .constant _ name _ => name
  | .label _ name _ => name

/-- The text that a symbol was defined with; for a label, its name. -/
def text : Symbol → String
  | .constant _ _ text => text
  | .label _ name _ => name

/-- The symbol is a label. -/
def isLabel : Symbol → Bool
  | .constant .. => false
  | .label .. => true

/-- The value of a symbol: the number a constant is defined as, the position a label marks. -/
def value? : Symbol → Option Quantity
  | .constant _ _ text => Quantity.read? text
  | .label _ _ position => some (.whole position)

/-- What an operand that names the symbol becomes, when the section of the symbol lies at
`offset`. -/
def resolve (offset : Int) : Symbol → Except NumeralFault String
  | .constant _ _ text =>
    match Quantity.read? text with
    | some quantity => quantity.plain
    | none => .ok text
  | .label _ _ position => writeInt (position + offset)

end Symbol

end ChipAsm
