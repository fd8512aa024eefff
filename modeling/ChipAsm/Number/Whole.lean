import ChipAsm.Text.Digit
import ChipAsm.Text.Blank

/-!
# Whole numbers

Integers are unbounded, but their decimal numerals are not: one of more than `digitLimit` digits
can be neither read nor written.  The sign does not count, leading zeros do.  Hexadecimal numerals
have no limit.
-/

namespace ChipAsm.Number

open ChipAsm.Text

/-- The greatest number of digits of a decimal integer numeral. -/
def digitLimit : Nat := 4300

/-- Why a number could not be read or written. -/
inductive NumeralFault where
  /-- A decimal integer numeral has too many digits to be read. -/
  | readTooLong (digits : Nat)
  /-- An integer has too many digits to be written. -/
  | writeTooLong
  /-- An integer lies beyond the range of binary64. -/
  | beyondDouble
deriving Repr, DecidableEq

/-- The message of a fault. -/
def NumeralFault.message : NumeralFault → String
  | .readTooLong digits =>
    s!"Exceeds the limit ({digitLimit} digits) for integer string conversion: "
      ++ s!"value has {digits} digits; use sys.set_int_max_str_digits() to increase the limit"
  | .writeTooLong =>
    s!"Exceeds the limit ({digitLimit} digits) for integer string conversion; "
      ++ "use sys.set_int_max_str_digits() to increase the limit"
  | .beyondDouble => "int too large to convert to float"

/-! ## Writing -/

/-- The decimal numeral of an integer. -/
def intChars (n : Int) : List Char :=
  if n < 0 then '-' :: natDigits n.natAbs else natDigits n.natAbs

/-- The decimal numeral of an integer. -/
def intText (n : Int) : String := String.ofList (intChars n)

/-- The decimal numeral of an integer, if it is not too long. -/
def writeInt (n : Int) : Except NumeralFault String :=
  if digitLimit < (natDigits n.natAbs).length then .error .writeTooLong else .ok (intText n)

/-! ## Reading -/

/-- Splits off a sign; the first component says whether it is a minus. -/
def splitSign : List Char → Bool × List Char
  | '-' :: cs => (true, cs)
  | '+' :: cs => (false, cs)
  | cs => (false, cs)

/-- A number with the given sign. -/
def signed (negative : Bool) (n : Nat) : Int := if negative then -n else n

/-- A non-empty run of decimal digits. -/
def isDigits (cs : List Char) : Bool := !cs.isEmpty && cs.all isDigit

/-- The number that a sign and digits write, if they are not too many. -/
def digitsInt (negative : Bool) (digits : List Char) : Except NumeralFault Int :=
  if digitLimit < digits.length then .error (.readTooLong digits.length)
  else .ok (signed negative (digitsValue digits))

/-- Reads a decimal integer numeral, an optional sign before digits; nothing for any other text.  A
line feed at the end is disregarded. -/
def readInt? (token : String) : Option (Except NumeralFault Int) :=
  let (negative, digits) := splitSign (chomp token.toList)
  if isDigits digits then some (digitsInt negative digits) else none

/-! ## Hexadecimal numerals -/

/-- The value of an ASCII hexadecimal digit. -/
def hexValue? (c : Char) : Option Nat :=
  if '0' ≤ c ∧ c ≤ '9' then some (c.toNat - 48)
  else if 'A' ≤ c ∧ c ≤ 'F' then some (c.toNat - 55)
  else if 'a' ≤ c ∧ c ≤ 'f' then some (c.toNat - 87)
  else none

/-- The number that hexadecimal digits write, from the value of those before them. -/
def hexFrom? : Nat → List Char → Option Nat
  | n, [] => some n
  | n, c :: cs => (hexValue? c).bind fun d => hexFrom? (16 * n + d) cs

/-- Drops the mark of a hexadecimal numeral, `0x` or a dollar sign. -/
def dropHexMark? : List Char → Option (List Char)
  | '0' :: 'x' :: cs => some cs
  | '$' :: cs => some cs
  | _ => none

/-- Reads a hexadecimal numeral of any length; nothing for any other text.  A line feed at the end
is disregarded. -/
def readHex? (token : String) : Option Nat :=
  match dropHexMark? token.toList with
  | none => none
  | some cs =>
    match chomp cs with
    | [] => none
    | digits => hexFrom? 0 digits

end ChipAsm.Number
