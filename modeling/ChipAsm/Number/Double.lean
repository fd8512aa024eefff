/-!
# Binary64

A double is a sign and a value `m · 2 ^ q` with `m < 2 ^ 53`, an infinity, or not a number.  Here
it is that triple and not a machine word, so that reading and writing are exact arithmetic on
natural numbers.

`Double.ofRatio` rounds a fraction to the nearest double, a tie to the even mantissa, and what is
too large to an infinity.  `Double.ofDecimal` does it for `c · 10 ^ e`.
-/

namespace ChipAsm.Number

/-- A binary64 number. -/
inductive Double where
  /-- The number `± mantissa · 2 ^ exponent`. -/
  | finite (negative : Bool) (mantissa : Nat) (exponent : Int)
  /-- An infinity. -/
  | infinite (negative : Bool)
  /-- Not a number. -/
  | nan
deriving Repr, DecidableEq

namespace Double

/-- The exponent of the smallest doubles. -/
def leastExponent : Int := -1074

/-- The exponent of the largest doubles. -/
def greatestExponent : Int := 971

/-- The first mantissa that is too large. -/
def mantissaBound : Nat := Nat.pow 2 53

/-- The quotient of two numbers, rounded to the nearest, a tie to the even one. -/
def roundDiv (num den : Nat) : Nat :=
  let q := num / den
  let r := num % den
  if 2 * r < den then q
  else if den < 2 * r then q + 1
  else if q % 2 = 0 then q
  else q + 1

/-- The fraction `num / den` divided by `2 ^ q`, as a fraction. -/
def scale (num den : Nat) (q : Int) : Nat × Nat :=
  if q < 0 then (num * Nat.pow 2 q.natAbs, den) else (num, den * Nat.pow 2 q.natAbs)

/-- The exponent at which a positive fraction has a mantissa of 53 bits, no smaller than the least
one. -/
def exponentOf (num den : Nat) : Int :=
  let q := (num.log2 : Int) - (den.log2 : Int) - 53
  let (n, d) := scale num den q
  max (if n / d < mantissaBound then q else q + 1) leastExponent

/-- The double with the given mantissa and exponent, where a mantissa that is one too large is
halved, and an exponent that is too large gives an infinity. -/
def pack (negative : Bool) (mantissa : Nat) (exponent : Int) : Double :=
  let (m, q) :=
    if mantissa = mantissaBound then (mantissaBound / 2, exponent + 1) else (mantissa, exponent)
  if greatestExponent < q then infinite negative else finite negative m q

/-- Zero with a sign. -/
def zero (negative : Bool) : Double := finite negative 0 leastExponent

/-- The double nearest to a fraction. -/
def ofRatio (negative : Bool) (num den : Nat) : Double :=
  if num = 0 then zero negative
  else
    let q := exponentOf num den
    let (n, d) := scale num den q
    pack negative (roundDiv n d) q

/-- The double nearest to `coeff · 10 ^ exp`, where `digits` is the number of digits of the
coefficient without leading zeros.  Numbers far outside the range are told by that count alone. -/
def ofDecimal (negative : Bool) (digits : Nat) (coeff : Nat) (exp : Int) : Double :=
  if digits = 0 then zero negative
  else if 310 < (digits : Int) + exp then infinite negative
  else if (digits : Int) + exp < -330 then zero negative
  else if exp < 0 then ofRatio negative coeff (Nat.pow 10 exp.natAbs)
  else ofRatio negative (coeff * Nat.pow 10 exp.natAbs) 1

/-- The integer that the double is, if it is one. -/
def whole? : Double → Option Int
  | finite negative m q =>
    if 0 ≤ q then
      let n : Int := (m * Nat.pow 2 q.natAbs : Nat)
      some (if negative then -n else n)
    else if m % Nat.pow 2 q.natAbs = 0 then
      let n : Int := (m / Nat.pow 2 q.natAbs : Nat)
      some (if negative then -n else n)
    else none
  | _ => none

end Double

end ChipAsm.Number
