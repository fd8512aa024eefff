import Mathlib.Algebra.BigOperators.Fin
import Mathlib.Data.Nat.Digits.Lemmas
import Mathlib.Data.Set.Function
import ChipAsm.Token.Call

/-!
# Packed texts

A packed text is read in base 256, its first character the highest digit.  The loop that packs it shifts,
takes the or with the next code and masks.  The number that it holds after `k` characters is below
`256 ^ k` (`packed_lt`).  Its lowest byte is free after the shift, so the or adds (`shiftIn_eq`), and up to
eight characters the mask finds nothing to clear (`shiftIn_and_wordMask`).  What the loop holds is then the
number with the codes as its digits (`foldl_shiftIn`).

The digits of a number are unique up to zeros in front.  An ASCII text of at most six characters is lost
only if it starts with the character of code zero.
-/

namespace ChipAsm.Token

/-! ## One character -/

theorem asciiCode_lt (c : Char) : asciiCode c < 128 := by
  rw [asciiCode]
  split <;> omega

/-- A code is below one byte, so that it does not meet the number that was moved up. -/
theorem shiftIn_eq (n : Nat) (c : Char) : shiftIn n c = asciiCode c + 256 * n := by
  have hcode : asciiCode c < 2 ^ 8 := Nat.lt_trans (asciiCode_lt c) (by decide)
  rw [shiftIn, Nat.shiftLeft_eq, Nat.mul_comm, ← Nat.two_pow_add_eq_or_of_lt hcode]
  omega

/-- The mask keeps what lies within eight bytes. -/
theorem shiftIn_and_wordMask {n k : Nat} (c : Char) (hn : n < 256 ^ k) (hk : k < 8) :
    shiftIn n c &&& wordMask = shiftIn n c := by
  have hcode := asciiCode_lt c
  have hlarge : 256 ^ (k + 1) ≤ 256 ^ 8 := Nat.pow_le_pow_right (by decide) hk
  have hword : shiftIn n c < 2 ^ 64 := by
    rw [shiftIn_eq]
    rw [Nat.pow_succ] at hlarge
    omega
  rw [show wordMask = 2 ^ 64 - 1 from rfl, Nat.and_two_pow_sub_one_of_lt_two_pow hword]

/-! ## A run over the characters -/

/-- The number with the codes of a text as its digits in base 256, the first the highest. -/
def packed (cs : List Char) : Nat := Nat.ofDigits 256 (cs.map asciiCode).reverse

theorem packed_concat (cs : List Char) (c : Char) :
    packed (cs ++ [c]) = asciiCode c + 256 * packed cs := by
  simp [packed, Nat.ofDigits_cons]

theorem packed_lt (cs : List Char) : packed cs < 256 ^ cs.length := by
  have hdigits : ∀ d ∈ (cs.map asciiCode).reverse, d < 256 := by
    intro d hd
    obtain ⟨c, -, rfl⟩ := List.mem_map.1 (List.mem_reverse.1 hd)
    exact Nat.lt_trans (asciiCode_lt c) (by decide)
  simpa [packed] using Nat.ofDigits_lt_base_pow_length (by decide : 1 < 256) hdigits

/-- Up to eight characters the loop holds the number of the characters that it has met. -/
theorem foldl_shiftIn {cs : List Char} (h : cs.length ≤ 8) :
    cs.foldl (fun n c => shiftIn n c &&& wordMask) 0 = packed cs := by
  induction cs using List.reverseRecOn with
  | nil => rfl
  | append_singleton cs c ih =>
      rw [List.length_append, List.length_singleton] at h
      rw [List.foldl_concat, ih (by omega), shiftIn_and_wordMask c (packed_lt cs) (by omega),
        shiftIn_eq, packed_concat]

theorem packText_eq_packed (cs : List Char) : packText cs = packed (cs.take packLimit) :=
  foldl_shiftIn (Nat.le_trans (List.length_take_le _ _) (by decide))

theorem packText_lt (cs : List Char) : packText cs < 256 ^ packLimit := by
  rw [packText_eq_packed]
  exact Nat.lt_of_lt_of_le (packed_lt _)
    (Nat.pow_le_pow_right (by decide) (List.length_take_le packLimit cs))

/-- The digits written out as a sum. -/
theorem packed_take {cs : List Char} {k : Nat} (h : k ≤ cs.length) :
    packed (cs.take k) = ∑ i : Fin k, asciiCode cs[i] * 256 ^ (k - 1 - i) := by
  induction k with
  | zero => rfl
  | succ k ih =>
      have hup : ∀ i : Fin k, 256 * (asciiCode cs[i] * 256 ^ (k - 1 - i)) =
          asciiCode cs[i] * 256 ^ (k - i) := by
        intro i
        rw [show k - i.val = k - 1 - i.val + 1 by omega, Nat.pow_succ]
        ring
      rw [List.take_succ_eq_append_getElem h, packed_concat, ih (by omega), Fin.sum_univ_castSucc,
        Finset.mul_sum, Finset.sum_congr rfl fun i _ => hup i]
      simp [Nat.add_comm]

/-! ## Digits -/

/-- A text that can be read off the number it is packed into. -/
structure Packable (cs : List Char) : Prop where
  /-- It has only ASCII characters. -/
  ascii : ∀ c ∈ cs, c.toNat < 128
  /-- It has at most six. -/
  short : cs.length ≤ 6
  /-- The first of them is not the one of code zero. -/
  head : cs.head? ≠ some '\x00'

instance (cs : List Char) : Decidable (Packable cs) :=
  decidable_of_iff
    (cs.all (fun c => c.toNat < 128) = true ∧ cs.length ≤ 6 ∧ cs.head? ≠ some '\x00')
    ⟨fun h => ⟨by simpa using h.1, h.2.1, h.2.2⟩, fun h => ⟨by simpa using h.ascii, h.short, h.head⟩⟩

theorem Packable.codes {cs : List Char} (h : Packable cs) :
    cs.map asciiCode = cs.map Char.toNat :=
  List.map_congr_left fun c hc => if_pos (h.ascii c hc)

theorem Packable.digits_packText {cs : List Char} (h : Packable cs) :
    Nat.digits 256 (packText cs) = (cs.map Char.toNat).reverse := by
  rw [packText_eq_packed, packLimit, List.take_of_length_le h.short, packed, h.codes]
  apply Nat.digits_ofDigits 256 (by decide)
  · intro d hd
    obtain ⟨c, hc, rfl⟩ := List.mem_map.1 (List.mem_reverse.1 hd)
    exact Nat.lt_trans (h.ascii c hc) (by decide)
  · -- the highest digit is the code of the first character
    intro hne
    cases cs with
    | nil => exact absurd rfl hne
    | cons c cs =>
        have hc : c ≠ '\x00' := fun hc => h.head (by rw [hc]; rfl)
        simpa [← Char.toNat_inj] using hc

theorem Packable.recovered {cs : List Char} (h : Packable cs) :
    (Nat.digits 256 (packText cs)).reverse.map Char.ofNat = cs := by
  rw [h.digits_packText, List.reverse_reverse, List.map_map]
  exact (List.map_congr_left fun c _ => Char.ofNat_toNat c).trans (List.map_id cs)

/-- A packed text is the number in base 256 whose digits are the codes of its first six characters, with
a question mark for each that is not ASCII.  It takes up six bytes, so the mask of the loop never changes
what it is applied to.  The digits give back an ASCII text of at most six characters that does not start
with the character of code zero, and no two such texts are packed into one number. -/
theorem packText_eq_sum (cs : List Char) :
    (packText cs = ∑ i : Fin (min 6 cs.length),
      (if cs[i].toNat < 128 then cs[i].toNat else '?'.toNat) * 256 ^ (min 6 cs.length - 1 - i)) ∧
    packText cs < 2 ^ 48 ∧
    (∀ i : Fin (min 6 cs.length),
      shiftIn (packText (cs.take i)) cs[i] &&& wordMask = shiftIn (packText (cs.take i)) cs[i]) ∧
    (Packable cs → (Nat.digits 256 (packText cs)).reverse.map Char.ofNat = cs) ∧
    Set.InjOn packText {text | Packable text} := by
  refine ⟨?_, packText_lt cs, fun i => ?_, Packable.recovered, ?_⟩
  · rw [packText_eq_packed, List.take_eq_take_min]
    exact packed_take (Nat.min_le_right 6 cs.length)
  · exact shiftIn_and_wordMask _ (packText_lt _) (by decide)
  · intro text htext other hother heq
    have hdigits : Nat.digits 256 (packText text) = Nat.digits 256 (packText other) := by rw [heq]
    rw [← Packable.recovered htext, hdigits, Packable.recovered hother]

/-- A character of code zero is kept behind another one. -/
theorem packText_eq_sum_innerZero :
    Packable ['a', '\x00', 'b'] ∧
      (Nat.digits 256 (packText ['a', '\x00', 'b'])).reverse.map Char.ofNat = ['a', '\x00', 'b'] := by
  have hpackable : Packable ['a', '\x00', 'b'] := by decide
  exact ⟨hpackable, (packText_eq_sum _).2.2.2.1 hpackable⟩

-- in front it is a zero in front of the digits
example : packText ['\x00', 'b'] = packText ['b'] := by decide

end ChipAsm.Token
