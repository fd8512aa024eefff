import Mathlib.Algebra.CharP.Two
import Mathlib.Algebra.Field.ZMod
import Mathlib.RingTheory.AdjoinRoot
import ChipAsm.Token.Call

/-!
# The checksum as a remainder

Bits are the coefficients of a polynomial over the field of two elements, the first one that of the
highest power.  A register is read from its least significant bit, and so is a byte of a message.  Then
a register stands for a polynomial of degree below 32, and one more bit multiplies it by `X` and
subtracts the generator if the degree has become 32 (`ofBits_shiftBit`).

So a register is congruent to the message, moved up by 32 powers, together with what it started with,
moved up by the length of the message (`mk_foldl_shiftByte`).  A polynomial of degree below 32 is its
own remainder, which makes the checksum a remainder on division by the generator (`ofBits_crc32`).
-/

namespace ChipAsm.Token

open Polynomial

/-! ## Bits as coefficients -/

/-- The polynomial with the given coefficients, that of the highest power first. -/
noncomputable def ofBits : List Bool → (ZMod 2)[X]
  | [] => 0
  | b :: bits => (if b then X ^ bits.length else 0) + ofBits bits

theorem ofBits_append (bits more : List Bool) :
    ofBits (bits ++ more) = X ^ more.length * ofBits bits + ofBits more := by
  induction bits with
  | nil => simp [ofBits]
  | cons b bits ih =>
      rw [List.cons_append, ofBits, ofBits, ih, List.length_append]
      split <;> ring

theorem ofBits_replicate_false (n : Nat) : ofBits (List.replicate n false) = 0 := by
  induction n with
  | zero => rfl
  | succ n ih => simp [List.replicate_succ, ofBits, ih]

/-- Coefficients are added by the exclusive or. -/
theorem ofBits_zipWith_xor {bits bits' : List Bool} (h : bits.length = bits'.length) :
    ofBits (List.zipWith xor bits bits') = ofBits bits + ofBits bits' := by
  induction bits generalizing bits' with
  | nil =>
      rw [List.length_nil, eq_comm, List.length_eq_zero_iff] at h
      simp [h, ofBits]
  | cons b bits ih =>
      obtain ⟨b', rest, rfl⟩ := List.exists_cons_of_length_eq_add_one h.symm
      have hlength : bits.length = rest.length := by simpa using h
      have hleading : (if xor b b' then X ^ rest.length else 0 : (ZMod 2)[X]) =
          (if b then X ^ rest.length else 0) + if b' then X ^ rest.length else 0 := by
        cases b <;> cases b' <;> simp [CharTwo.add_self_eq_zero]
      rw [List.zipWith_cons_cons, ofBits, ofBits, ofBits, ih hlength, List.length_zipWith, hlength,
        Nat.min_self, hleading]
      ring

theorem coeff_ofBits (bits : List Bool) (k : Nat) :
    (ofBits bits).coeff k = if bits.reverse[k]? = some true then 1 else 0 := by
  induction bits with
  | nil => simp [ofBits]
  | cons b bits ih =>
      rw [ofBits, coeff_add, ih, List.reverse_cons]
      rcases Nat.lt_trichotomy k bits.length with hlt | rfl | hgt
      · rw [List.getElem?_append_left (by simpa using hlt)]
        cases b <;> simp [coeff_X_pow, hlt.ne]
      · rw [List.getElem?_append_right (by simp)]
        cases b <;> simp
      · rw [List.getElem?_eq_none (by simpa using Nat.le_of_lt hgt),
          List.getElem?_eq_none (by simpa using hgt)]
        cases b <;> simp [coeff_X_pow, hgt.ne']

theorem degree_ofBits_lt (bits : List Bool) : (ofBits bits).degree < bits.length := by
  rw [degree_lt_iff_coeff_zero]
  intro k hk
  rw [coeff_ofBits, List.getElem?_eq_none (by simpa using hk), if_neg (by simp)]

/-! ## Words -/

/-- The bits of a word, from the least significant one. -/
def bitsOf {n : Nat} (w : BitVec n) : List Bool := (List.range n).map w.getLsbD

theorem length_bitsOf {n : Nat} (w : BitVec n) : (bitsOf w).length = n := by simp [bitsOf]

theorem bitsOf_xor {n : Nat} (w w' : BitVec n) :
    bitsOf (w ^^^ w') = List.zipWith xor (bitsOf w) (bitsOf w') := by
  refine List.ext_getElem (by simp [bitsOf]) fun i hi hi' => ?_
  simp [bitsOf]

theorem ofBits_bitsOf_xor {n : Nat} (w w' : BitVec n) :
    ofBits (bitsOf (w ^^^ w')) = ofBits (bitsOf w) + ofBits (bitsOf w') := by
  rw [bitsOf_xor, ofBits_zipWith_xor (by rw [length_bitsOf, length_bitsOf])]

/-- The bits of a word that is moved by one place: the least significant one is lost. -/
theorem bitsOf_shiftRight (r : BitVec 32) :
    bitsOf r = r.getLsbD 0 :: (bitsOf r).tail ∧ bitsOf (r >>> 1) = (bitsOf r).tail ++ [false] := by
  constructor
  · rfl
  · refine List.ext_getElem (by simp [bitsOf]) fun i hi hi' => ?_
    by_cases hlast : i < 31
    · rw [List.getElem_append_left (by simpa [bitsOf] using hlast)]
      simp [bitsOf, Nat.add_comm]
    · rw [length_bitsOf] at hi
      obtain rfl : i = 31 := by omega
      simp [bitsOf]

/-- The bits of a byte are the first ones of a register that holds it. -/
theorem bitsOf_setWidth (b : BitVec 8) :
    bitsOf (b.setWidth 32) = bitsOf b ++ List.replicate 24 false := by
  refine List.ext_getElem (by simp [bitsOf]) fun i hi hi' => ?_
  by_cases hlow : i < 8
  · rw [List.getElem_append_left (by simpa [bitsOf] using hlow)]
    simp [bitsOf, Nat.lt_trans hlow (by decide : 8 < 32)]
  · rw [List.getElem_append_right (by simpa [bitsOf] using hlow), List.getElem_replicate]
    simp [bitsOf, BitVec.getLsbD_of_ge b i (Nat.le_of_not_lt hlow)]

theorem bitsOf_allOnes (n : Nat) : bitsOf (BitVec.allOnes n) = List.replicate n true := by
  refine List.ext_getElem (by simp [bitsOf]) fun i hi hi' => ?_
  rw [length_bitsOf] at hi
  simp [bitsOf, hi]

/-! ## The register -/

/-- The generator: `0x04C11DB7`, read from its most significant bit, behind the leading term. -/
noncomputable def divisor : (ZMod 2)[X] := X ^ 32 + ofBits (bitsOf 0x04C11DB7#32).reverse

/-- The polynomial of a register with all bits set. -/
noncomputable def allSet : (ZMod 2)[X] := ofBits (List.replicate 32 true)

theorem bitsOf_generator : bitsOf generator = (bitsOf 0x04C11DB7#32).reverse := by decide

theorem degree_ofBits_divisor : (ofBits (bitsOf 0x04C11DB7#32).reverse).degree < (32 : Nat) := by
  have hdegree := degree_ofBits_lt (bitsOf 0x04C11DB7#32).reverse
  rwa [List.length_reverse, length_bitsOf] at hdegree

theorem divisor_monic : divisor.Monic := monic_X_pow_add degree_ofBits_divisor

theorem degree_divisor : divisor.degree = (32 : Nat) := by
  rw [divisor, degree_add_eq_left_of_degree_lt, degree_X_pow]
  rw [degree_X_pow]
  exact degree_ofBits_divisor

/-- One more bit multiplies the register by `X`, and subtracts the divisor if the degree becomes 32. -/
theorem ofBits_shiftBit (r : BitVec 32) :
    ofBits (bitsOf (shiftBit r)) =
      X * ofBits (bitsOf r) + if r.getLsbD 0 then divisor else 0 := by
  obtain ⟨hbits, hmoved⟩ := bitsOf_shiftRight r
  have hlength : (bitsOf r).tail.length = 31 := by rw [List.length_tail, length_bitsOf]
  -- The least significant bit is the leading coefficient, and leaves the register at the top.
  have hshift : X * ofBits (bitsOf r) =
      (if r.getLsbD 0 then X ^ 32 else 0) + ofBits (bitsOf (r >>> 1)) := by
    rw [hmoved, ofBits_append, hbits, ofBits, hlength, List.tail_cons]
    cases r.getLsbD 0 <;> simp [ofBits, mul_add, pow_succ']
  have hdouble : X ^ 32 + X ^ 32 = (0 : (ZMod 2)[X]) := CharTwo.add_self_eq_zero _
  rw [hshift, shiftBit, divisor, ← bitsOf_generator]
  cases r.getLsbD 0 with
  | false => simp
  | true =>
      rw [if_pos rfl, if_pos rfl, if_pos rfl, ofBits_bitsOf_xor]
      calc ofBits (bitsOf (r >>> 1)) + ofBits (bitsOf generator)
          = (X ^ 32 + X ^ 32) + (ofBits (bitsOf (r >>> 1)) + ofBits (bitsOf generator)) := by
            rw [hdouble, zero_add]
        _ = X ^ 32 + ofBits (bitsOf (r >>> 1)) + (X ^ 32 + ofBits (bitsOf generator)) := by ring

/-! ## Division by the generator -/

theorem mk_shiftBits (n : Nat) (r : BitVec 32) :
    AdjoinRoot.mk divisor (ofBits (bitsOf (shiftBits n r))) =
      AdjoinRoot.mk divisor (X ^ n * ofBits (bitsOf r)) := by
  induction n generalizing r with
  | zero => simp [shiftBits]
  | succ n ih =>
      have hreduce : AdjoinRoot.mk divisor (if r.getLsbD 0 then divisor else 0) = 0 := by
        split
        · exact AdjoinRoot.mk_self
        · exact map_zero _
      rw [shiftBits, ih, ofBits_shiftBit, mul_add, map_add, map_mul _ _ (ite ..), hreduce, mul_zero,
        add_zero, ← mul_assoc, pow_succ]

theorem mk_shiftByte (r : BitVec 32) (b : BitVec 8) :
    AdjoinRoot.mk divisor (ofBits (bitsOf (shiftByte r b))) =
      AdjoinRoot.mk divisor (X ^ 8 * ofBits (bitsOf r) + X ^ 32 * ofBits (bitsOf b)) := by
  rw [shiftByte, mk_shiftBits, ofBits_bitsOf_xor, bitsOf_setWidth, ofBits_append,
    ofBits_replicate_false, List.length_replicate]
  exact congrArg (AdjoinRoot.mk divisor) (by ring)

/-- The register after a message, up to multiples of the divisor. -/
theorem mk_foldl_shiftByte (message : List (BitVec 8)) (r : BitVec 32) :
    AdjoinRoot.mk divisor (ofBits (bitsOf (message.foldl shiftByte r))) =
      AdjoinRoot.mk divisor (X ^ (message.flatMap bitsOf).length * ofBits (bitsOf r) +
        X ^ 32 * ofBits (message.flatMap bitsOf)) := by
  induction message generalizing r with
  | nil => simp [ofBits]
  | cons b message ih =>
      rw [List.foldl_cons, ih, map_add, map_mul, mk_shiftByte, ← map_mul, ← map_add,
        List.flatMap_cons, ofBits_append, List.length_append, length_bitsOf]
      exact congrArg (AdjoinRoot.mk divisor) (by ring)

/-- A register is its own remainder. -/
theorem ofBits_modByMonic (r : BitVec 32) : ofBits (bitsOf r) %ₘ divisor = ofBits (bitsOf r) := by
  rw [modByMonic_eq_self_iff divisor_monic, degree_divisor]
  have hdegree := degree_ofBits_lt (bitsOf r)
  rwa [length_bitsOf] at hdegree

/-- The checksum of a message as a polynomial.  The message is moved up by 32 powers, and the register,
which starts with all bits set, by the length of the message.  Their sum is divided by the generator, and
every coefficient of the remainder is complemented. -/
noncomputable def checksumOf (bits : List Bool) : (ZMod 2)[X] :=
  (X ^ 32 * ofBits bits + X ^ bits.length * allSet) %ₘ divisor + allSet

theorem ofBits_not (r : BitVec 32) : ofBits (bitsOf (~~~r)) = ofBits (bitsOf r) + allSet := by
  rw [← BitVec.xor_allOnes, ofBits_bitsOf_xor, bitsOf_allOnes, allSet]

/-- The bits of the checksum, from the least significant one, are the coefficients from that of the
highest power. -/
theorem ofBits_crc32 (message : List (BitVec 8)) :
    ofBits (bitsOf (crc32 message)) = checksumOf (message.flatMap bitsOf) := by
  have hstart : ofBits (bitsOf (~~~0#32)) = allSet := by
    rw [BitVec.not_zero, bitsOf_allOnes, allSet]
  have hcongr := mk_foldl_shiftByte message (~~~0#32)
  rw [hstart, AdjoinRoot.mk_eq_mk] at hcongr
  rw [crc32, ofBits_not, checksumOf, ← ofBits_modByMonic (message.foldl shiftByte (~~~0#32)),
    modByMonic_eq_of_dvd_sub divisor_monic hcongr, add_comm (X ^ 32 * _)]

/-! ## The hash of a text -/

/-- The text as bytes: a character that is not ASCII is a question mark. -/
def asciiBytes (cs : List Char) : List (BitVec 8) :=
  cs.map fun c => if c.toNat < 128 then BitVec.ofNat 8 c.toNat else BitVec.ofNat 8 '?'.toNat

/-- The hash of a text is the checksum of its bytes, reflected: it is below `2 ^ 32`, and its bit `i` is
the coefficient of `X ^ (31 - i)`. -/
theorem hashText_eq_remainder (cs : List Char) :
    hashText cs < 2 ^ 32 ∧
      ∀ i : Fin 32, (checksumOf ((asciiBytes cs).flatMap bitsOf)).coeff (31 - i.val) =
        if (hashText cs).testBit i.val then 1 else 0 := by
  have hbytes : (cs.map fun c => BitVec.ofNat 8 (asciiCode c)) = asciiBytes cs := by
    refine List.map_congr_left fun c _ => ?_
    rw [asciiCode]
    split <;> rfl
  rw [hashText, hbytes]
  refine ⟨BitVec.isLt _, fun i => ?_⟩
  have hbit : (bitsOf (crc32 (asciiBytes cs))).reverse[31 - i.val]? =
      some ((crc32 (asciiBytes cs)).toNat.testBit i.val) := by
    rw [List.getElem?_reverse (by rw [length_bitsOf]; omega), length_bitsOf,
      show 32 - 1 - (31 - i.val) = i.val by omega]
    simp [bitsOf, BitVec.getLsbD]
  rw [← ofBits_crc32, coeff_ofBits, hbit]
  simp only [Option.some.injEq]

example : hashText ['1', '2', '3', '4', '5', '6', '7', '8', '9'] = 0xCBF43926 := by decide +kernel

end ChipAsm.Token
