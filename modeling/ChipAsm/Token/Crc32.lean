/-!
# CRC-32

The cyclic redundancy check with the generator
`x³² + x²⁶ + x²³ + x²² + x¹⁶ + x¹² + x¹¹ + x¹⁰ + x⁸ + x⁷ + x⁵ + x⁴ + x² + x + 1`.  The bits of each
byte are taken from the least significant one, so the register is held in reverse: its bit 31 is the
constant term.  The register starts with all bits set, and the checksum is its complement at the
end.
-/

namespace ChipAsm.Token

/-- The generator without its leading term, with the constant term in bit 31. -/
def generator : BitVec 32 := 0xEDB88320#32

/-- The register after one more bit: multiplied by `x` and reduced by the generator. -/
def shiftBit (r : BitVec 32) : BitVec 32 :=
  if r.getLsbD 0 then (r >>> 1) ^^^ generator else r >>> 1

/-- The register after `n` more bits. -/
def shiftBits : Nat → BitVec 32 → BitVec 32
  | 0, r => r
  | n + 1, r => shiftBits n (shiftBit r)

/-- The register after one more byte. -/
def shiftByte (r : BitVec 32) (b : BitVec 8) : BitVec 32 := shiftBits 8 (r ^^^ b.setWidth 32)

/-- The checksum of a message. -/
def crc32 (message : List (BitVec 8)) : BitVec 32 := ~~~(message.foldl shiftByte (~~~0#32))

end ChipAsm.Token
