import ChipAsm.Number.Whole
import ChipAsm.Number.Double

/-!
# Decimal numerals

A decimal numeral has an optional sign, digits with an optional point among, before or behind them,
and an optional exponent.  At least one digit stands before or behind the point.  Digits may be of
any script.
-/

namespace ChipAsm.Number

open ChipAsm.Text

/-- The parts of a decimal numeral. -/
structure Numeral where
  /-- It has a minus sign. -/
  negative : Bool
  /-- The digits before the point. -/
  whole : List Char
  /-- The digits behind the point. -/
  fraction : List Char
  /-- The exponent. -/
  exponent : Int
deriving Repr, DecidableEq

namespace Numeral

/-- Splits off the longest run of digits. -/
def splitDigits (cs : List Char) : List Char × List Char :=
  (cs.takeWhile isDigit, cs.dropWhile isDigit)

/-- Splits off a point and the digits behind it, if a point stands there. -/
def splitFraction : List Char → List Char × List Char
  | '.' :: cs => splitDigits cs
  | cs => ([], cs)

/-- Reads the exponent that ends a numeral; no exponent reads as zero. -/
def exponent? : List Char → Option Int
  | [] => some 0
  | mark :: cs =>
    if mark = 'e' ∨ mark = 'E' then
      let (negative, digits) := splitSign cs
      if isDigits digits then some (signed negative (digitsValue digits)) else none
    else none

/-- Reads a decimal numeral that takes up the whole text. -/
def ofChars? (cs : List Char) : Option Numeral :=
  let (negative, cs) := splitSign cs
  let (whole, cs) := splitDigits cs
  let (fraction, cs) := splitFraction cs
  if whole.isEmpty && fraction.isEmpty then none
  else (exponent? cs).map fun exponent => ⟨negative, whole, fraction, exponent⟩

/-- Reads a decimal numeral.  A line feed at the end is disregarded. -/
def read? (token : String) : Option Numeral := ofChars? (chomp token.toList)

/-- The double nearest to the numeral. -/
def toDouble (n : Numeral) : Double :=
  let digits := n.whole ++ n.fraction
  let significant := digits.dropWhile fun c => digitValue c == 0
  Double.ofDecimal n.negative significant.length (digitsValue significant)
    (n.exponent - n.fraction.length)

end Numeral

/-- The names of the doubles that are no decimals, in lower case. -/
def specialDouble? (negative : Bool) (name : String) : Option Double :=
  if name = "inf" ∨ name = "infinity" then some (.infinite negative)
  else if name = "nan" then some .nan
  else none

end ChipAsm.Number
