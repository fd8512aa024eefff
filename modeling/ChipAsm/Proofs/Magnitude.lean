import ChipAsm.Proofs.Packing
import ChipAsm.Proofs.Rounding

/-!
# How large numbers can be

A numeral writes a number that is bounded by its length, a call one of six bytes, and a double without a
fractional part one of 1024 bits.  So an integer that is read from a token of moderate length, or is
written for one, has at most 1024 bits (`IsModerate`).  That is far fewer digits than can be read or
written at once.
-/

namespace ChipAsm

open ChipAsm.Text ChipAsm.Token ChipAsm.Number

/-! ## Positional numerals -/

/-- The greatest length of a token that is surely harmless. -/
def moderateLength : Nat := 255

end ChipAsm
