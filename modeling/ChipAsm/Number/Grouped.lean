import ChipAsm.Number.Decimal
import ChipAsm.Number.Numeral
import ChipAsm.Text.Case

/-!
# Grouped numerals

A number that is given from outside the source, as a setting is, is written more freely than an
operand.  Blanks may stand around it, except the information separators, and a single underscore may
stand between any two digits.  `readGrouped?` reads an integer so written, `Double.read?` a double.
-/

namespace ChipAsm.Number

open ChipAsm.Text

/-- A blank that may stand around a number: any but the information separators. -/
def isMargin (c : Char) : Bool := isBlank c && !(28 ≤ c.toNat && c.toNat ≤ 31)

/-- A text without the margins around it. -/
def dropMargins (cs : List Char) : List Char :=
  ((cs.dropWhile isMargin).reverse.dropWhile isMargin).reverse

/-- The text that starts with a digit. -/
def startsWithDigit : List Char → Bool
  | c :: _ => isDigit c
  | [] => false

/-- The text without its underscores, where `digitBefore` tells whether a digit stands before it;
nothing if an underscore does not stand between two digits. -/
def ungroupFrom? (digitBefore : Bool) : List Char → Option (List Char)
  | [] => some []
  | c :: cs =>
    if c = '_' then
      if digitBefore && startsWithDigit cs then ungroupFrom? false cs else none
    else (ungroupFrom? (isDigit c) cs).map (c :: ·)

/-- The text of a number without margins and underscores. -/
def ungroup? (s : String) : Option (List Char) := ungroupFrom? false (dropMargins s.toList)

/-- Reads an integer: an optional sign before digits; nothing for any other text. -/
def readGrouped? (s : String) : Option (Except NumeralFault Int) :=
  (ungroup? s).bind fun cs =>
    let (negative, digits) := splitSign cs
    if isDigits digits then some (digitsInt negative digits) else none

/-- Reads a double: a decimal numeral, or the name of an infinity or of what is not a number. -/
def Double.read? (s : String) : Option Double :=
  (ungroup? s).bind fun cs =>
    match Numeral.ofChars? cs with
    | some numeral => some numeral.toDouble
    | none =>
      let (negative, name) := splitSign cs
      specialDouble? negative (String.ofList (lowerChars name))

end ChipAsm.Number
