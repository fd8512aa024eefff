import ChipAsm.Number.Double
import ChipAsm.Text.Digit

/-!
# Shortest decimals

The decimal that is written for a double is the one with the fewest digits that reads back as that
double, and of those the nearest to it.  A double has a finite decimal expansion, so the search
starts from the exact one: for each number of digits it takes the two neighbours of the exact value
with that many digits, the nearer first, and the first that reads back is taken.  The exact
expansion reads back, so nothing is lost when no shorter one does.
-/

namespace ChipAsm.Number

open ChipAsm.Text

/-- The number `coeff · 10 ^ exp`. -/
structure Decimal where
  /-- The coefficient. -/
  coeff : Nat
  /-- The power of ten. -/
  exp : Int
deriving Repr, DecidableEq

namespace Decimal

/-- The exact value of `m · 2 ^ q`: a power of two below one is a power of five by a power of
ten. -/
def ofBinary (m : Nat) (q : Int) : Decimal :=
  if q < 0 then ⟨m * Nat.pow 5 q.natAbs, q⟩ else ⟨m * Nat.pow 2 q.natAbs, 0⟩

/-- The digits of the coefficient. -/
def digits (d : Decimal) : List Char := natDigits d.coeff

/-- The double that the decimal reads as. -/
def toDouble (negative : Bool) (d : Decimal) : Double :=
  if d.coeff = 0 then Double.zero negative
  else Double.ofDecimal negative d.digits.length d.coeff d.exp

/-- The neighbours of a decimal with `n` digits, the nearer first, of two equally near ones the even
first.  A decimal that has no more digits is its own neighbour. -/
def neighbours (d : Decimal) (n : Nat) : List Decimal :=
  let surplus := d.digits.length - n
  if surplus = 0 then [d]
  else
    let unit := Nat.pow 10 surplus
    let low := d.coeff / unit
    let rest := d.coeff % unit
    let below : Decimal := ⟨low, d.exp + surplus⟩
    let above : Decimal := ⟨low + 1, d.exp + surplus⟩
    if 2 * rest < unit ∨ (2 * rest = unit ∧ low % 2 = 0) then [below, above] else [above, below]

/-- The most digits that a double ever needs. -/
def mostDigits : Nat := 17

/-- The shortest decimal that reads back as `m · 2 ^ q`. -/
def shortest (m : Nat) (q : Int) : Decimal :=
  let full := ofBinary m q
  let found := (List.range mostDigits).findSome? fun n =>
    (full.neighbours (n + 1)).find? fun d => d.toDouble false = Double.finite false m q
  found.getD full

/-- The digits of a decimal without trailing zeros, and the place of the point in front of which
they stand: the number is `0.digits · 10 ^ place`. -/
def pointed (d : Decimal) : List Char × Int :=
  let ds := d.digits
  let kept := (ds.reverse.dropWhile (· == '0')).reverse
  (kept, (ds.length : Int) + d.exp)

end Decimal

/-! ## Layout -/

/-- How digits and a place are laid out. -/
structure DecimalStyle where
  /-- The least place that is written without an exponent. -/
  leastPlace : Int
  /-- The greatest place that is written without an exponent. -/
  greatestPlace : Int
  /-- The least number of digits of an exponent. -/
  exponentWidth : Nat

/-- Numbers from one ten-thousandth up to ten to the sixteenth stand without an exponent, and an
exponent has a sign and at least two digits. -/
def DecimalStyle.plain : DecimalStyle := ⟨-3, 16, 2⟩

/-- Digits with the point put in its place, and a zero on the side where there are none. -/
def positional (digits : List Char) (place : Int) : List Char :=
  if place ≤ 0 then
    '0' :: '.' :: List.replicate place.natAbs '0' ++ digits
  else if digits.length ≤ place.natAbs then
    digits ++ List.replicate (place.natAbs - digits.length) '0' ++ ['.', '0']
  else digits.take place.natAbs ++ '.' :: digits.drop place.natAbs

/-- Digits with the point behind the first, and an exponent. -/
def scientific (width : Nat) (digits : List Char) (place : Int) : List Char :=
  let exponent := place - 1
  let sign := if exponent < 0 then '-' else '+'
  let ds := natDigits exponent.natAbs
  let power := 'e' :: sign :: List.replicate (width - ds.length) '0' ++ ds
  match digits with
  | [] => '0' :: power
  | [d] => d :: power
  | d :: more => d :: '.' :: more ++ power

/-- Digits at a place in the given style. -/
def DecimalStyle.layout (style : DecimalStyle) (digits : List Char) (place : Int) : List Char :=
  if style.leastPlace ≤ place ∧ place ≤ style.greatestPlace then positional digits place
  else scientific style.exponentWidth digits place

/-- The text of a double: its shortest decimal. -/
def Double.chars : Double → List Char
  | .nan => ['n', 'a', 'n']
  | .infinite negative => if negative then ['-', 'i', 'n', 'f'] else ['i', 'n', 'f']
  | .finite negative m q =>
    let body :=
      if m = 0 then ['0', '.', '0']
      else
        let (digits, place) := (Decimal.shortest m q).pointed
        DecimalStyle.plain.layout digits place
    if negative then '-' :: body else body

/-- The text of a double: its shortest decimal. -/
def Double.text (x : Double) : String := String.ofList x.chars

end ChipAsm.Number
