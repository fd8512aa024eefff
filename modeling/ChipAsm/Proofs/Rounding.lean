import ChipAsm.Proofs.Shortest

/-!
# Integers as doubles

An integer is converted to the double nearest to it before it is asked whether it has a fractional part.
The double of an integer never has one (`isSome_whole?_ofRatio`): below 53 bits it is the integer itself,
and beyond them its exponent is not negative.  The conversion fails exactly from `doubleRange` on
(`ofRatio_eq_infinite_iff`).  That number lies half a step above the largest double, and the tie goes to
the even mantissa, which is one too large.

So an integer below `doubleRange` is written as it is, and no digit of it is rounded (`plain_whole`).
-/

namespace ChipAsm

open ChipAsm.Text ChipAsm.Number

namespace Number.Double

/-! ## Exponents -/

/-- One power of two less would leave a mantissa of 54 bits. -/
theorem exponentOf_one {n : Nat} (hn : n ≠ 0) : exponentOf n 1 = (n.log2 : Int) - 52 := by
  have hpow : Nat.pow 2 n.log2 ≤ n := Nat.log2_self_le hn
  have hlarge : ¬ (scale n 1 ((n.log2 : Int) - 53)).1 / (scale n 1 ((n.log2 : Int) - 53)).2
      < mantissaBound := by
    by_cases hneg : (n.log2 : Int) - 53 < 0
    · rw [scale_of_neg hneg, Nat.div_one, Nat.not_lt]
      generalize hk : ((n.log2 : Int) - 53).natAbs = k
      calc mantissaBound = Nat.pow 2 (n.log2 + k) := by rw [show n.log2 + k = 53 by omega]; rfl
        _ = Nat.pow 2 n.log2 * Nat.pow 2 k := Nat.pow_add 2 _ _
        _ ≤ n * Nat.pow 2 k := Nat.mul_le_mul_right _ hpow
    · rw [scale_of_nonneg (by omega), Nat.one_mul, Nat.not_lt]
      generalize hk : ((n.log2 : Int) - 53).natAbs = k
      refine (Nat.le_div_iff_mul_le (Nat.pow_pos (by decide))).2 ?_
      calc mantissaBound * Nat.pow 2 k = Nat.pow 2 (53 + k) := (Nat.pow_add 2 _ _).symm
        _ = Nat.pow 2 n.log2 := by rw [show 53 + k = n.log2 by omega]
        _ ≤ n := hpow
  have hone : (Nat.log2 1 : Int) = 0 := rfl
  rw [exponentOf, hone, Int.sub_zero]
  simp only [hlarge, if_false, leastExponent]
  omega

theorem roundDiv_one (n : Nat) : roundDiv n 1 = n := by
  simp [roundDiv, Nat.mod_one]

theorem ofRatio_eq_pack {num : Nat} (h : num ≠ 0) (den : Nat) (negative : Bool) :
    ofRatio negative num den =
      pack negative (roundDiv (scale num den (exponentOf num den)).1
        (scale num den (exponentOf num den)).2) (exponentOf num den) := by
  rw [ofRatio, if_neg h]

/-- An integer of less than 53 bits is a double. -/
theorem ofRatio_of_small {n : Nat} (hn : n ≠ 0) (hlog : n.log2 < 52) (negative : Bool) :
    ofRatio negative n 1 = finite negative (n * Nat.pow 2 (52 - n.log2)) ((n.log2 : Int) - 52) := by
  have hneg : (n.log2 : Int) - 52 < 0 := by omega
  have habs : ((n.log2 : Int) - 52).natAbs = 52 - n.log2 := by omega
  have hbound : n * Nat.pow 2 (52 - n.log2) < mantissaBound := by
    have hfits := fits_exponentOf n Nat.one_ne_zero
    rwa [exponentOf_one hn, Fits, scale_of_neg hneg, habs, Nat.mul_one] at hfits
  rw [ofRatio_eq_pack hn, exponentOf_one hn, scale_of_neg hneg, habs, roundDiv_one, pack,
    if_neg (Nat.ne_of_lt hbound)]
  exact if_neg (by rw [greatestExponent]; omega)

/-- An integer of 53 bits or more is rounded to a multiple of a power of two. -/
theorem ofRatio_of_large {n : Nat} (hlog : 52 ≤ n.log2) (negative : Bool) :
    ofRatio negative n 1 =
      pack negative (roundDiv n (Nat.pow 2 (n.log2 - 52))) ((n.log2 - 52 : Nat) : Int) := by
  have hn : n ≠ 0 := by
    rintro rfl
    rw [Nat.log2_zero] at hlog
    omega
  have hexponent : (n.log2 : Int) - 52 = ((n.log2 - 52 : Nat) : Int) := by omega
  rw [ofRatio_eq_pack hn, exponentOf_one hn, hexponent, scale_of_nonneg (Int.natCast_nonneg _),
    Int.natAbs_natCast, Nat.one_mul]

/-! ## Integers have no fractional part -/

/-- A mantissa that is one too large is halved before the exponent is looked at. -/
theorem exists_pack_eq (negative : Bool) (mantissa : Nat) (exponent : Int) :
    ∃ m q, q = (if mantissa = mantissaBound then exponent + 1 else exponent) ∧
      pack negative mantissa exponent =
        if greatestExponent < q then infinite negative else finite negative m q := by
  rw [pack]
  by_cases htop : mantissa = mantissaBound
  · simp only [htop, if_true]
    exact ⟨_, _, rfl, rfl⟩
  · simp only [htop, if_false]
    exact ⟨_, _, rfl, rfl⟩

theorem exponent_of_pack {negative negative' : Bool} {mantissa m : Nat} {exponent q : Int}
    (h : pack negative mantissa exponent = finite negative' m q) : exponent ≤ q := by
  obtain ⟨m', q', hq, hpack⟩ := exists_pack_eq negative mantissa exponent
  have hle : exponent ≤ q' := by
    rw [hq]
    split <;> omega
  rw [hpack] at h
  split at h
  · cases h
  · cases h
    exact hle

/-- A fraction is rounded to a number or an infinity of its sign. -/
theorem ofRatio_cases (negative : Bool) (num den : Nat) :
    ofRatio negative num den = infinite negative ∨
      ∃ m q, ofRatio negative num den = finite negative m q := by
  by_cases hn : num = 0
  · exact .inr ⟨0, leastExponent, if_pos hn⟩
  · rw [ofRatio_eq_pack hn]
    obtain ⟨m, q, -, hpack⟩ := exists_pack_eq negative _ (exponentOf num den)
    rw [hpack]
    split
    · exact .inl rfl
    · exact .inr ⟨m, q, rfl⟩

theorem isSome_whole?_ofRatio {negative negative' : Bool} {n m : Nat} {q : Int}
    (h : ofRatio negative n 1 = finite negative' m q) :
    (finite negative' m q).whole?.isSome = true := by
  rcases Nat.eq_zero_or_pos n with rfl | hpos
  · cases h
    rw [whole?, if_neg (by decide), if_pos (Nat.zero_mod _)]
    rfl
  · by_cases hlog : n.log2 < 52
    · -- the mantissa was made by shifting the integer up
      have hneg : ¬ 0 ≤ (n.log2 : Int) - 52 := by omega
      have habs : ((n.log2 : Int) - 52).natAbs = 52 - n.log2 := by omega
      rw [ofRatio_of_small (Nat.ne_of_gt hpos) hlog] at h
      cases h
      rw [whole?, if_neg hneg, habs, if_pos (Nat.mul_mod_left _ _)]
      rfl
    · rw [ofRatio_of_large (by omega)] at h
      have hexponent := exponent_of_pack h
      rw [whole?, if_pos (by omega)]
      rfl

/-! ## The largest double -/

/-- The first integer that is nearer to the double that would follow the largest one than to the largest
one, or as near to both. -/
def doubleRange : Nat := Nat.pow 2 1024 - Nat.pow 2 970

/-- A quotient just above an odd number is rounded up from the half on. -/
theorem roundDiv_eq_succ_iff (num half top : Nat) (hodd : top % 2 = 1) (hhalf : 0 < half)
    (hlt : num < (top + 1) * (2 * half)) :
    roundDiv num (2 * half) = top + 1 ↔ top * (2 * half) + half ≤ num := by
  have hden : 0 < 2 * half := by omega
  have hle : num / (2 * half) ≤ top := Nat.lt_succ_iff.1 ((Nat.div_lt_iff_lt_mul hden).2 hlt)
  have hsplit := Nat.div_add_mod num (2 * half)
  rcases Nat.lt_or_eq_of_le hle with hbelow | htop
  · have hround := roundDiv_le num (2 * half)
    have hnum : num < top * (2 * half) := (Nat.div_lt_iff_lt_mul hden).1 hbelow
    constructor
    · intro h
      omega
    · intro h
      omega
  · rw [htop, Nat.mul_comm] at hsplit
    simp only [roundDiv, htop]
    split
    · omega
    · split
      · omega
      · rw [if_neg (by omega)]
        omega

/-- The largest doubles are 2 ^ 971 apart, and an integer is rounded past them from half of that on. -/
theorem roundDiv_eq_mantissaBound_iff {n : Nat} (h : n.log2 = 1023) :
    roundDiv n (Nat.pow 2 (n.log2 - 52)) = mantissaBound ↔ doubleRange ≤ n := by
  have hsucc : mantissaBound = mantissaBound - 1 + 1 := by decide +kernel
  have hstep : Nat.pow 2 (1023 - 52) = 2 * Nat.pow 2 970 := by decide +kernel
  have hall : Nat.pow 2 (1023 + 1) = (mantissaBound - 1 + 1) * (2 * Nat.pow 2 970) := by
    decide +kernel
  have hrange : doubleRange = (mantissaBound - 1) * (2 * Nat.pow 2 970) + Nat.pow 2 970 := by
    decide +kernel
  have hodd : (mantissaBound - 1) % 2 = 1 := by decide +kernel
  have hhalf : 0 < Nat.pow 2 970 := by decide +kernel
  have hlt : n < Nat.pow 2 (n.log2 + 1) := Nat.lt_log2_self
  rw [h, hall] at hlt
  rw [h, hsucc, hstep, hrange]
  generalize Nat.pow 2 970 = half at hlt hhalf ⊢
  exact roundDiv_eq_succ_iff n half _ hodd hhalf hlt

theorem pack_eq_infinite_iff (negative : Bool) (mantissa : Nat) (exponent : Int) :
    pack negative mantissa exponent = infinite negative ↔
      greatestExponent < if mantissa = mantissaBound then exponent + 1 else exponent := by
  obtain ⟨m, q, hq, hpack⟩ := exists_pack_eq negative mantissa exponent
  rw [hpack, ← hq]
  split
  · rename_i hlarge
    exact ⟨fun _ => hlarge, fun _ => rfl⟩
  · rename_i hlarge
    exact ⟨fun h => (by cases h), fun h => absurd h hlarge⟩

theorem ofRatio_eq_infinite_iff (negative : Bool) (n : Nat) :
    ofRatio negative n 1 = infinite negative ↔ doubleRange ≤ n := by
  have hsmall : n.log2 < 1023 → n < doubleRange := by
    intro hlog
    have hlt : ∀ k, n.log2 + 1 ≤ k → n < Nat.pow 2 k := fun k hk =>
      Nat.lt_of_lt_of_le Nat.lt_log2_self (Nat.pow_le_pow_right (by decide) hk)
    exact Nat.lt_of_lt_of_le (hlt 1023 hlog) (by decide +kernel)
  by_cases hlog : n.log2 < 52
  · have hfinite : ofRatio negative n 1 ≠ infinite negative := by
      by_cases hn : n = 0
      · rw [hn, ofRatio, if_pos rfl]
        simp [zero]
      · simp [ofRatio_of_small hn hlog]
    exact ⟨fun h => absurd h hfinite, fun h => absurd h (Nat.not_le.2 (hsmall (by omega)))⟩
  · rw [ofRatio_of_large (by omega), pack_eq_infinite_iff, greatestExponent]
    rcases Nat.lt_trichotomy n.log2 1023 with hbelow | htop | habove
    · refine ⟨fun h => ?_, fun h => absurd h (Nat.not_le.2 (hsmall hbelow))⟩
      split at h
      · omega
      · omega
    · rw [← roundDiv_eq_mantissaBound_iff htop]
      split
      · rename_i heq
        exact ⟨fun _ => heq, fun _ => by omega⟩
      · rename_i hne
        exact ⟨fun h => by omega, fun h => absurd h hne⟩
    · have hle : doubleRange ≤ n := by
        have hn : n ≠ 0 := by
          rintro rfl
          rw [Nat.log2_zero] at habove
          omega
        have hpow : ∀ k, k ≤ n.log2 → Nat.pow 2 k ≤ n := fun k hk =>
          Nat.le_trans (Nat.pow_le_pow_right (by decide) hk) (Nat.log2_self_le hn)
        exact Nat.le_trans (by decide +kernel) (hpow 1024 habove)
      refine ⟨fun _ => hle, fun _ => ?_⟩
      split
      · omega
      · omega

end Number.Double

/-- The first power of two that is too large for a double. -/
def doubleBound : Nat := Nat.pow 2 1024

theorem length_natDigits_le {n k : Nat} (hk : 0 < k) (h : n < Nat.pow 10 k) :
    (natDigits n).length ≤ k :=
  (Nat.length_toDigits_le_iff (by decide) hk).2 h

theorem writeInt_of_lt {n : Int} (h : n.natAbs < 2 * doubleBound) : writeInt n = .ok (intText n) := by
  have hlimit : 2 * doubleBound ≤ Nat.pow 10 digitLimit := by decide +kernel
  have hlength := length_natDigits_le (by decide) (Nat.lt_of_lt_of_le h hlimit)
  rw [writeInt, if_neg (Nat.not_lt.2 hlength)]

/-! ## Writing -/

open Number.Double

theorem ofInt_of_range {n : Int} (h : doubleRange ≤ n.natAbs) :
    Double.ofInt n = .error .beyondDouble := by
  rw [Double.ofInt, (ofRatio_eq_infinite_iff _ _).2 h]

theorem ofInt_of_lt {n : Int} (h : n.natAbs < doubleRange) :
    ∃ x : Double, Double.ofInt n = .ok x ∧ x.whole?.isSome = true := by
  rcases ofRatio_cases (n < 0) n.natAbs 1 with hinfinite | ⟨m, q, hfinite⟩
  · exact absurd ((ofRatio_eq_infinite_iff _ _).1 hinfinite) (Nat.not_le.2 h)
  · refine ⟨_, ?_, isSome_whole?_ofRatio hfinite⟩
    rw [Double.ofInt, hfinite]

/-- An integer is written exactly, or it is beyond the doubles. -/
theorem plain_whole (n : Int) :
    (Quantity.whole n).plain =
      if doubleRange ≤ n.natAbs then .error .beyondDouble else .ok (intText n) := by
  rw [Quantity.plain, Quantity.whole?]
  split
  · rename_i hlarge
    rw [ofInt_of_range hlarge]
    rfl
  · rename_i hsmall
    obtain ⟨x, hx, hwhole⟩ := ofInt_of_lt (Nat.not_le.1 hsmall)
    obtain ⟨k, hk⟩ := Option.isSome_iff_exists.1 hwhole
    have hbound : n.natAbs < 2 * doubleBound :=
      Nat.lt_of_lt_of_le (Nat.not_le.1 hsmall) (by decide +kernel)
    rw [hx, ← writeInt_of_lt hbound]
    simp only [Except.map, hk]
    rfl

end ChipAsm
