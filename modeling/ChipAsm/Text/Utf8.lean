/-!
# UTF-8

Decoding is strict: no overlong form, no surrogate, nothing above U+10FFFF.  The first byte that
cannot be part of a character ends it with a fault.  A fault names the bytes that were seen of the
broken character: one byte if it cannot start a character, the good bytes of a character whose
continuation is wrong, and all the remaining bytes if the text ends within a character.
-/

namespace ChipAsm.Text

/-- Why bytes are no text. -/
inductive Utf8Cause where
  /-- A byte that no character starts with. -/
  | startByte
  /-- A byte inside a character that cannot continue it. -/
  | continuationByte
  /-- The text ends within a character. -/
  | endOfData
deriving Repr, DecidableEq

/-- What is said of the cause. -/
def Utf8Cause.message : Utf8Cause → String
  | .startByte => "invalid start byte"
  | .continuationByte => "invalid continuation byte"
  | .endOfData => "unexpected end of data"

/-- Bytes that could not be decoded. -/
structure Utf8Fault where
  /-- The position of the first byte of the broken character. -/
  start : Nat
  /-- The bytes of it that were seen, at least one. -/
  bytes : List UInt8
  /-- What is wrong with them. -/
  cause : Utf8Cause
deriving Repr, DecidableEq

/-- Two hexadecimal digits of a byte. -/
def hexByte (b : UInt8) : String :=
  let digits := Nat.toDigits 16 b.toNat
  String.ofList (List.replicate (2 - digits.length) '0' ++ digits)

/-- The message for bytes at a position that could not be decoded, for a stated reason. -/
def undecodable (start : Nat) (bytes : List UInt8) (reason : String) : String :=
  match bytes with
  | [b] => s!"'utf-8' codec can't decode byte 0x{hexByte b} in position {start}: {reason}"
  | _ =>
    let last := start + bytes.length - 1
    s!"'utf-8' codec can't decode bytes in position {start}-{last}: {reason}"

/-- The message of a fault. -/
def Utf8Fault.message (fault : Utf8Fault) : String :=
  undecodable fault.start fault.bytes fault.cause.message

/-! ## Decoding -/

/-- A byte that continues a character. -/
def isContinuation (b : UInt8) : Bool := 0x80 ≤ b && b < 0xC0

/-- How many bytes follow the first byte of a character; none for a byte that starts no
character. -/
def followers? (b : UInt8) : Option Nat :=
  if b < 0x80 then some 0
  else if 0xC2 ≤ b && b < 0xE0 then some 1
  else if 0xE0 ≤ b && b < 0xF0 then some 2
  else if 0xF0 ≤ b && b < 0xF5 then some 3
  else none

/-- The second byte keeps the character clear of overlong forms, surrogates and code points that
are too large. -/
def isSecond (first second : UInt8) : Bool :=
  isContinuation second &&
    (if first == 0xE0 then 0xA0 ≤ second
     else if first == 0xED then second < 0xA0
     else if first == 0xF0 then 0x90 ≤ second
     else if first == 0xF4 then second < 0x90
     else true)

/-- The bits of the first byte that belong to the code point. -/
def leadBits (first : UInt8) : Nat :=
  if first < 0x80 then first.toNat
  else if first < 0xE0 then first.toNat - 0xC0
  else if first < 0xF0 then first.toNat - 0xE0
  else first.toNat - 0xF0

/-- The code point with the bits of one more continuation byte. -/
def pushBits (n : Nat) (b : UInt8) : Nat := 64 * n + (b.toNat - 0x80)

/-- Decoding of bytes, `start` of which have been decoded before. -/
def decodeAt (start : Nat) : List UInt8 → Except Utf8Fault (List Char)
  | [] => .ok []
  | b :: rest =>
    match followers? b with
    | none => .error ⟨start, [b], .startByte⟩
    | some 0 => (decodeAt (start + 1) rest).map (Char.ofNat b.toNat :: ·)
    | some 1 =>
      match rest with
      | [] => .error ⟨start, [b], .endOfData⟩
      | b₂ :: rest =>
        if !isSecond b b₂ then .error ⟨start, [b], .continuationByte⟩
        else (decodeAt (start + 2) rest).map (Char.ofNat (pushBits (leadBits b) b₂) :: ·)
    | some 2 =>
      match rest with
      | [] => .error ⟨start, [b], .endOfData⟩
      | [b₂] =>
        if !isSecond b b₂ then .error ⟨start, [b], .continuationByte⟩
        else .error ⟨start, [b, b₂], .endOfData⟩
      | b₂ :: b₃ :: rest =>
        if !isSecond b b₂ then .error ⟨start, [b], .continuationByte⟩
        else if !isContinuation b₃ then .error ⟨start, [b, b₂], .continuationByte⟩
        else
          (decodeAt (start + 3) rest).map
            (Char.ofNat (pushBits (pushBits (leadBits b) b₂) b₃) :: ·)
    | some _ =>
      match rest with
      | [] => .error ⟨start, [b], .endOfData⟩
      | [b₂] =>
        if !isSecond b b₂ then .error ⟨start, [b], .continuationByte⟩
        else .error ⟨start, [b, b₂], .endOfData⟩
      | [b₂, b₃] =>
        if !isSecond b b₂ then .error ⟨start, [b], .continuationByte⟩
        else if !isContinuation b₃ then .error ⟨start, [b, b₂], .continuationByte⟩
        else .error ⟨start, [b, b₂, b₃], .endOfData⟩
      | b₂ :: b₃ :: b₄ :: rest =>
        if !isSecond b b₂ then .error ⟨start, [b], .continuationByte⟩
        else if !isContinuation b₃ then .error ⟨start, [b, b₂], .continuationByte⟩
        else if !isContinuation b₄ then .error ⟨start, [b, b₂, b₃], .continuationByte⟩
        else
          (decodeAt (start + 4) rest).map
            (Char.ofNat (pushBits (pushBits (pushBits (leadBits b) b₂) b₃) b₄) :: ·)

/-- The text that the bytes encode. -/
def decodeUtf8 (bytes : List UInt8) : Except Utf8Fault String :=
  (decodeAt 0 bytes).map String.ofList

/-- The bytes that encode a text. -/
def encodeUtf8 (s : String) : List UInt8 := s.toUTF8.toList

end ChipAsm.Text
