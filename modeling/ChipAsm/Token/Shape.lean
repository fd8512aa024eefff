import ChipAsm.Number.Numeral
import ChipAsm.Token.Call

/-!
# Token shapes

What an operand token is, told from its text alone.  The shapes exclude each other except that a
word is anything that has no other shape.  A line feed at the end of a token is disregarded.
-/

namespace ChipAsm.Token

open ChipAsm.Text ChipAsm.Number

/-- The number of a register: 0 to 15, or the letter of the return address. -/
def isRegisterIndex : List Char → Bool
  | [c] => ('0' ≤ c && c ≤ '9') || c == 'a'
  | ['1', c] => '0' ≤ c && c ≤ '5'
  | _ => false

/-- The letter `r` once or more, then the number of a register. -/
def isNumberedRegister : List Char → Bool
  | 'r' :: cs => isRegisterIndex (cs.dropWhile (· == 'r'))
  | _ => false

/-- The stack pointer, or a register with any number of indirections. -/
def isRegisterChars : List Char → Bool
  | ['s', 'p'] => true
  | cs => isNumberedRegister cs

/-- The pin of a device: the housing, one of six pins, or a pin numbered by a register. -/
def isPin : List Char → Bool
  | [c] => c == 'b' || ('0' ≤ c && c ≤ '5')
  | cs => isNumberedRegister cs

/-- The channel of a device: a colon and one digit, or nothing. -/
def isChannel : List Char → Bool
  | [] => true
  | [':', c] => isDigit c
  | _ => false

/-- The letter `d`, a pin and a channel. -/
def isDeviceChars : List Char → Bool
  | 'd' :: cs => isPin (cs.takeWhile (· != ':')) && isChannel (cs.dropWhile (· != ':'))
  | _ => false

/-- The token is a register. -/
def isRegister (token : String) : Bool := isRegisterChars (chomp token.toList)

/-- The token is a device pin. -/
def isDevice (token : String) : Bool := isDeviceChars (chomp token.toList)

/-- The token is a decimal numeral. -/
def isNumber (token : String) : Bool := (Numeral.read? token).isSome

/-- The shape of a token. -/
inductive Shape where
  /-- A decimal numeral. -/
  | number
  /-- An inline call. -/
  | call
  /-- A device pin. -/
  | device
  /-- A register. -/
  | register
  /-- A hexadecimal numeral. -/
  | hex (n : Nat)
  /-- Anything else; it may be the name of a symbol. -/
  | word
deriving Repr, DecidableEq

/-- The shape of a token; the first that fits, in the order of the constructors. -/
def Shape.of (token : String) : Shape :=
  if isNumber token then .number
  else if isCall token then .call
  else if isDevice token then .device
  else if isRegister token then .register
  else
    match readHex? token with
    | some n => .hex n
    | none => .word

end ChipAsm.Token
