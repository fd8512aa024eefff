import ChipAsm.Proofs.Numeral
import ChipAsm.Proofs.Spelling

/-!
# The text of a double with a fractional part

A double that is read has a mantissa of 53 bits at most (`inRange_of_toDouble`).  If it has a
fractional part, its exponent is negative, so it lies below the largest mantissa.  The shortest decimal
that reads back as it is less than twice as large: the neighbour above the exact value with one digit is
at most twice that value.  So no more than sixteen digits stand in front of its point (`place_le`), and
it is never written with a positive exponent.  All characters of its text may stand in an operand
(`isAtom_plain`).
-/

namespace ChipAsm

open ChipAsm.Text ChipAsm.Token ChipAsm.Number

/-! ## Mantissas -/

namespace Number.Double

theorem roundDiv_le (num den : Nat) : roundDiv num den ≤ num / den + 1 := by
  simp only [roundDiv]
  split
  · omega
  · split
    · omega
    · split <;> omega

/-- The mantissa of a fraction at an exponent is not too large. -/
def Fits (num den : Nat) (q : Int) : Prop :=
  (scale num den q).1 < mantissaBound * (scale num den q).2

theorem scale_of_neg {q : Int} (h : q < 0) (num den : Nat) :
    scale num den q = (num * Nat.pow 2 q.natAbs, den) := if_pos h

theorem scale_of_nonneg {q : Int} (h : 0 ≤ q) (num den : Nat) :
    scale num den q = (num, den * Nat.pow 2 q.natAbs) := if_neg (by omega)

theorem Fits.succ {num den : Nat} {q : Int} (h : Fits num den q) : Fits num den (q + 1) := by
  rw [Fits] at h ⊢
  by_cases hneg : q < 0
  · rw [scale_of_neg hneg] at h
    have habs : q.natAbs = (q + 1).natAbs + 1 := by omega
    have hpow : Nat.pow 2 q.natAbs = Nat.pow 2 (q + 1).natAbs * 2 := by
      rw [habs]
      rfl
    rw [hpow, ← Nat.mul_assoc] at h
    by_cases hneg' : q + 1 < 0
    · rw [scale_of_neg hneg']
      dsimp only at h ⊢
      omega
    · have hzero : (q + 1).natAbs = 0 := by omega
      rw [scale_of_nonneg (by omega), hzero]
      rw [hzero] at h
      simp only [Nat.pow_zero, Nat.mul_one, Nat.pow_eq] at h ⊢
      omega
  · rw [scale_of_nonneg (by omega)] at h
    rw [scale_of_nonneg (by omega)]
    have habs : (q + 1).natAbs = q.natAbs + 1 := by omega
    have hpow : Nat.pow 2 (q + 1).natAbs = Nat.pow 2 q.natAbs * 2 := by
      rw [habs]
      rfl
    dsimp only at h ⊢
    rw [hpow, ← Nat.mul_assoc, ← Nat.mul_assoc]
    rw [← Nat.mul_assoc] at h
    omega

theorem Fits.mono {num den : Nat} {q q' : Int} (h : Fits num den q) (hle : q ≤ q') :
    Fits num den q' := by
  obtain ⟨k, rfl⟩ := Int.le.dest hle
  induction k with
  | zero => rwa [Int.natCast_zero, Int.add_zero]
  | succ k ih =>
      have hnext := (ih (by omega)).succ
      rwa [Int.add_assoc] at hnext

/-- The number of bits of a fraction tells an exponent at which its mantissa is not too large. -/
theorem fits_of_log2 (num : Nat) {den : Nat} (hden : den ≠ 0) :
    Fits num den ((num.log2 : Int) - den.log2 - 52) := by
  have hnum : num < Nat.pow 2 (num.log2 + 1) := Nat.lt_log2_self
  have hle : Nat.pow 2 den.log2 ≤ den := Nat.log2_self_le hden
  rw [Fits]
  by_cases hneg : (num.log2 : Int) - den.log2 - 52 < 0
  · rw [scale_of_neg hneg]
    generalize hk : ((num.log2 : Int) - den.log2 - 52).natAbs = k
    have hsum : num.log2 + 1 + k = 53 + den.log2 := by omega
    calc num * Nat.pow 2 k
        < Nat.pow 2 (num.log2 + 1) * Nat.pow 2 k :=
          Nat.mul_lt_mul_of_pos_right hnum (Nat.pow_pos (by decide))
      _ = Nat.pow 2 (53 + den.log2) := by rw [← hsum]; exact (Nat.pow_add 2 _ _).symm
      _ = mantissaBound * Nat.pow 2 den.log2 := Nat.pow_add 2 _ _
      _ ≤ mantissaBound * den := Nat.mul_le_mul_left _ hle
  · rw [scale_of_nonneg (by omega)]
    generalize hk : ((num.log2 : Int) - den.log2 - 52).natAbs = k
    have hsum : num.log2 + 1 = 53 + (den.log2 + k) := by omega
    calc num
        < Nat.pow 2 (num.log2 + 1) := hnum
      _ = Nat.pow 2 53 * (Nat.pow 2 den.log2 * Nat.pow 2 k) := by
          rw [hsum]
          exact (Nat.pow_add 2 _ _).trans (congrArg _ (Nat.pow_add 2 _ _))
      _ ≤ mantissaBound * (den * Nat.pow 2 k) :=
          Nat.mul_le_mul_left _ (Nat.mul_le_mul_right _ hle)

theorem scale_den_pos {num den : Nat} (hden : den ≠ 0) (q : Int) : 0 < (scale num den q).2 := by
  by_cases hneg : q < 0
  · rw [scale_of_neg hneg]
    exact Nat.pos_of_ne_zero hden
  · rw [scale_of_nonneg (by omega)]
    exact Nat.mul_pos (Nat.pos_of_ne_zero hden) (Nat.pow_pos (by decide))

theorem fits_exponentOf (num : Nat) {den : Nat} (hden : den ≠ 0) :
    Fits num den (exponentOf num den) := by
  have hlog := fits_of_log2 num hden
  generalize hq : (num.log2 : Int) - den.log2 - 53 = q
  have hnext : (num.log2 : Int) - den.log2 - 52 = q + 1 := by omega
  rw [hnext] at hlog
  have hchosen : Fits num den
      (if (scale num den q).1 / (scale num den q).2 < mantissaBound then q else q + 1) := by
    split
    · rename_i hlt
      exact (Nat.div_lt_iff_lt_mul (scale_den_pos hden q)).1 hlt
    · exact hlog
  rw [exponentOf, hq]
  exact hchosen.mono (Int.le_max_left _ _)

/-- The mantissa and the exponent of a double are not too large. -/
structure InRange (m : Nat) (q : Int) : Prop where
  mantissa : m < mantissaBound
  exponent : q ≤ greatestExponent

theorem inRange_zero : InRange 0 leastExponent := ⟨by decide, by decide⟩

theorem inRange_of_pack {negative negative' : Bool} {mantissa m : Nat} {exponent q : Int}
    (hle : mantissa ≤ mantissaBound) (h : pack negative mantissa exponent = finite negative' m q) :
    InRange m q := by
  rw [pack] at h
  by_cases htop : mantissa = mantissaBound
  · simp only [htop, if_true] at h
    split at h
    · cases h
    · rename_i hexponent
      cases h
      exact ⟨by decide, by omega⟩
  · simp only [htop, if_false] at h
    split at h
    · cases h
    · rename_i hexponent
      cases h
      exact ⟨by omega, by omega⟩

theorem inRange_of_ofRatio {negative negative' : Bool} {num den m : Nat} {q : Int}
    (hden : den ≠ 0) (h : ofRatio negative num den = finite negative' m q) : InRange m q := by
  rw [ofRatio] at h
  split at h
  · cases h
    exact inRange_zero
  · refine inRange_of_pack ?_ h
    have hfits := fits_exponentOf num hden
    have hdiv : (scale num den (exponentOf num den)).1 / (scale num den (exponentOf num den)).2
        < mantissaBound := (Nat.div_lt_iff_lt_mul (scale_den_pos hden _)).2 hfits
    exact Nat.le_trans (roundDiv_le _ _) hdiv

theorem inRange_of_ofDecimal {negative negative' : Bool} {digits coeff m : Nat} {exp q : Int}
    (h : ofDecimal negative digits coeff exp = finite negative' m q) : InRange m q := by
  rw [ofDecimal] at h
  split at h
  · cases h
    exact inRange_zero
  · split at h
    · cases h
    · split at h
      · cases h
        exact inRange_zero
      · split at h
        · exact inRange_of_ofRatio (Nat.ne_of_gt (Nat.pow_pos (by decide))) h
        · exact inRange_of_ofRatio (by decide) h

end Number.Double

/-- A double that is read has a mantissa of 53 bits at most, and no larger exponent than the largest
doubles. -/
theorem inRange_of_toDouble {n : Numeral} {negative : Bool} {m : Nat} {q : Int}
    (h : n.toDouble = .finite negative m q) : Double.InRange m q :=
  Double.inRange_of_ofDecimal h

/-! ## The place of the point -/

theorem pow_length_natDigits_le {n : Nat} (h : n ≠ 0) :
    Nat.pow 10 ((natDigits n).length - 1) ≤ n := by
  by_cases hone : (natDigits n).length - 1 = 0
  · rw [hone]
    exact Nat.pos_of_ne_zero h
  · apply Nat.le_of_not_lt
    intro hlt
    have hshort : (natDigits n).length ≤ (natDigits n).length - 1 :=
      (Nat.length_toDigits_le_iff (by decide) (Nat.pos_of_ne_zero hone)).2 hlt
    omega

namespace Number.Decimal

/-- The decimal is some tens of a larger one, and at most twice as large. -/
structure Rounds (full d : Decimal) (surplus : Nat) : Prop where
  exp : d.exp = full.exp + surplus
  pos : d.coeff ≠ 0
  le : d.coeff * Nat.pow 10 surplus ≤ 2 * full.coeff

theorem rounds_self {full : Decimal} (h : full.coeff ≠ 0) : Rounds full full 0 where
  exp := (Int.add_zero _).symm
  pos := h
  le := by
    show full.coeff * 1 ≤ 2 * full.coeff
    omega

/-- A neighbour with at least one digit is at most twice as large. -/
theorem rounds_of_mem_neighbours {full d : Decimal} {n : Nat} (hpos : full.coeff ≠ 0)
    (h : d ∈ full.neighbours (n + 1)) : ∃ surplus, Rounds full d surplus := by
  simp only [neighbours] at h
  rw [digits] at h
  generalize hsurplus : (natDigits full.coeff).length - (n + 1) = surplus at h
  by_cases hzero : surplus = 0
  · rw [if_pos hzero, List.mem_singleton] at h
    rw [h]
    exact ⟨0, rounds_self hpos⟩
  · rw [if_neg hzero] at h
    have hunit : Nat.pow 10 surplus ≤ full.coeff :=
      Nat.le_trans (Nat.pow_le_pow_right (by decide) (by omega)) (pow_length_natDigits_le hpos)
    have hunitPos : 0 < Nat.pow 10 surplus := Nat.pow_pos (by decide)
    have hlow : full.coeff / Nat.pow 10 surplus ≠ 0 :=
      Nat.ne_of_gt (Nat.div_pos hunit hunitPos)
    have hmul : full.coeff / Nat.pow 10 surplus * Nat.pow 10 surplus ≤ full.coeff :=
      Nat.div_mul_le_self _ _
    have hbelow : Rounds full ⟨full.coeff / Nat.pow 10 surplus, full.exp + surplus⟩ surplus :=
      ⟨rfl, hlow, by dsimp only; omega⟩
    have habove : Rounds full ⟨full.coeff / Nat.pow 10 surplus + 1, full.exp + surplus⟩ surplus :=
      ⟨rfl, Nat.succ_ne_zero _, by dsimp only; rw [Nat.add_mul, Nat.one_mul]; omega⟩
    refine ⟨surplus, ?_⟩
    split at h
    · simp only [List.mem_cons, List.not_mem_nil, or_false] at h
      rcases h with rfl | rfl
      · exact hbelow
      · exact habove
    · simp only [List.mem_cons, List.not_mem_nil, or_false] at h
      rcases h with rfl | rfl
      · exact habove
      · exact hbelow

theorem coeff_ofBinary_ne_zero {m : Nat} (hm : m ≠ 0) (q : Int) : (ofBinary m q).coeff ≠ 0 := by
  rw [ofBinary]
  split
  · exact Nat.mul_ne_zero hm (Nat.ne_of_gt (Nat.pow_pos (by decide)))
  · exact Nat.mul_ne_zero hm (Nat.ne_of_gt (Nat.pow_pos (by decide)))

theorem rounds_shortest {m : Nat} (hm : m ≠ 0) (q : Int) :
    ∃ surplus, Rounds (ofBinary m q) (shortest m q) surplus := by
  have hpos := coeff_ofBinary_ne_zero hm q
  simp only [shortest]
  cases hfound : (List.range mostDigits).findSome? fun n =>
      ((ofBinary m q).neighbours (n + 1)).find? fun d =>
        d.toDouble false = Double.finite false m q with
  | none => exact ⟨0, rounds_self hpos⟩
  | some d =>
      obtain ⟨n, -, hd⟩ := List.exists_of_findSome?_eq_some hfound
      exact rounds_of_mem_neighbours hpos (List.mem_of_find?_eq_some hd)

/-- No more than sixteen digits stand in front of the point of a double with a negative exponent. -/
theorem place_le {m : Nat} {q : Int} (hm : m ≠ 0) (hlt : m < Double.mantissaBound) (hq : q < 0) :
    (shortest m q).pointed.2 ≤ 16 := by
  obtain ⟨surplus, hrounds⟩ := rounds_shortest hm q
  have hfull : ofBinary m q = ⟨m * Nat.pow 5 q.natAbs, q⟩ := if_pos hq
  rw [hfull] at hrounds
  have hlength := pow_length_natDigits_le hrounds.pos
  have hplace : (shortest m q).pointed.2 =
      (natDigits (shortest m q).coeff).length + (q + surplus) := by
    rw [← hrounds.exp]
    rfl
  rw [hplace]
  generalize (natDigits (shortest m q).coeff).length = length at hlength ⊢
  apply Int.not_lt.1
  intro hbig
  -- The decimal has so many digits that the value is at least ten to the sixteenth.
  have hdigits : Nat.pow 10 (16 + q.natAbs) ≤ 2 * m * Nat.pow 5 q.natAbs := by
    calc Nat.pow 10 (16 + q.natAbs)
        ≤ Nat.pow 10 (length - 1 + surplus) := Nat.pow_le_pow_right (by decide) (by omega)
      _ = Nat.pow 10 (length - 1) * Nat.pow 10 surplus := Nat.pow_add 10 _ _
      _ ≤ (shortest m q).coeff * Nat.pow 10 surplus := Nat.mul_le_mul_right _ hlength
      _ ≤ 2 * (m * Nat.pow 5 q.natAbs) := hrounds.le
      _ = 2 * m * Nat.pow 5 q.natAbs := (Nat.mul_assoc ..).symm
  have hten : Nat.pow 10 (16 + q.natAbs) =
      10000000000000000 * Nat.pow 2 q.natAbs * Nat.pow 5 q.natAbs := by
    calc Nat.pow 10 (16 + q.natAbs)
        = Nat.pow 10 16 * Nat.pow 10 q.natAbs := Nat.pow_add 10 _ _
      _ = 10000000000000000 * (Nat.pow 2 q.natAbs * Nat.pow 5 q.natAbs) :=
          congrArg _ (Nat.mul_pow 2 5 _)
      _ = 10000000000000000 * Nat.pow 2 q.natAbs * Nat.pow 5 q.natAbs :=
          (Nat.mul_assoc ..).symm
  have hvalue : 10000000000000000 * Nat.pow 2 q.natAbs ≤ 2 * m :=
    Nat.le_of_mul_le_mul_right (hten ▸ hdigits) (Nat.pow_pos (by decide))
  have htwo : Nat.pow 2 1 ≤ Nat.pow 2 q.natAbs := Nat.pow_le_pow_right (by decide) (by omega)
  have hbound : m < 9007199254740992 := hlt
  rw [show Nat.pow 2 1 = 2 from rfl] at htwo
  generalize Nat.pow 2 q.natAbs = power at htwo hvalue
  omega

end Number.Decimal

/-! ## Characters -/

theorem isAtomChar_of_isDigit {c : Char} (h : c.isDigit = true) : Line.isAtomChar c = true := by
  simp [Line.isAtomChar, Line.isAlnum, h]

theorem isAtom_intText (n : Int) : Line.isAtom (intText n).toList = true := by
  rw [intText, String.toList_ofList]
  apply Line.isAtom_of_forall
  · rw [intChars]
    split
    · exact List.cons_ne_nil _ _
    · exact Nat.toDigits_ne_nil
  · intro c hc
    rcases mem_intChars hc with rfl | hc
    · decide
    · exact isAtomChar_of_isDigit hc

theorem isAtomChar_of_mem_positional {digits : List Char} {place : Int}
    (hdigits : ∀ c ∈ digits, c.isDigit = true) :
    ∀ c ∈ positional digits place, Line.isAtomChar c = true := by
  have hzero : Line.isAtomChar '0' = true := by decide
  have hpoint : Line.isAtomChar '.' = true := by decide
  have hdigit : ∀ c ∈ digits, Line.isAtomChar c = true := fun c hc =>
    isAtomChar_of_isDigit (hdigits c hc)
  intro c hc
  rw [positional] at hc
  split at hc
  · simp only [List.cons_append, List.mem_cons, List.mem_append, List.mem_replicate] at hc
    rcases hc with rfl | rfl | ⟨-, rfl⟩ | hc
    · exact hzero
    · exact hpoint
    · exact hzero
    · exact hdigit c hc
  · split at hc
    · simp only [List.mem_append, List.mem_replicate, List.mem_cons, List.not_mem_nil,
        or_false] at hc
      rcases hc with (hc | ⟨-, rfl⟩) | rfl | rfl
      · exact hdigit c hc
      · exact hzero
      · exact hpoint
      · exact hzero
    · simp only [List.mem_append, List.mem_cons] at hc
      rcases hc with hc | rfl | hc
      · exact hdigit c (List.mem_of_mem_take hc)
      · exact hpoint
      · exact hdigit c (List.mem_of_mem_drop hc)

/-- An exponent that is not positive is written without a plus sign. -/
theorem isAtomChar_of_mem_scientific {digits : List Char} {place : Int} {width : Nat}
    (hdigits : ∀ c ∈ digits, c.isDigit = true) (hplace : place ≤ 0) :
    ∀ c ∈ scientific width digits place, Line.isAtomChar c = true := by
  have hdigit : ∀ c ∈ digits, Line.isAtomChar c = true := fun c hc =>
    isAtomChar_of_isDigit (hdigits c hc)
  have hpower : ∀ c ∈ 'e' :: '-' ::
      List.replicate (width - (natDigits (place - 1).natAbs).length) '0'
        ++ natDigits (place - 1).natAbs, Line.isAtomChar c = true := by
    intro c hc
    simp only [List.cons_append, List.mem_cons, List.mem_append, List.mem_replicate] at hc
    rcases hc with rfl | rfl | ⟨-, rfl⟩ | hc
    · decide
    · decide
    · decide
    · exact isAtomChar_of_isDigit (isDigit_of_mem_natDigits hc)
  have hsign : (if place - 1 < 0 then '-' else '+') = '-' := if_pos (by omega)
  intro c hc
  simp only [scientific, hsign] at hc
  split at hc
  · rcases List.mem_cons.1 hc with rfl | hc
    · decide
    · exact hpower c hc
  · rename_i d
    rcases List.mem_cons.1 hc with rfl | hc
    · exact hdigit c (List.mem_cons_self ..)
    · exact hpower c hc
  · rename_i d more _
    simp only [List.cons_append, List.mem_cons] at hc
    rcases hc with rfl | rfl | hc
    · exact hdigit c (List.mem_cons_self ..)
    · decide
    · rcases List.mem_append.1 hc with hc | hc
      · exact hdigit c (List.mem_cons_of_mem _ hc)
      · exact hpower c hc

theorem Laid.ne_nil {body : List Char} (h : Laid body) : body ≠ [] := by
  cases h with
  | bare hne => simp [hne]
  | pointed hne => simp

theorem isAtom_text {negative : Bool} {m : Nat} {q : Int} (hlt : m < Double.mantissaBound)
    (hwhole : (Double.finite negative m q).whole? = none) :
    Line.isAtom (Double.finite negative m q).text.toList = true := by
  have hq : q < 0 := by
    apply Int.not_le.1
    intro hq
    simp [Double.whole?, hq] at hwhole
  have hm : m ≠ 0 := by
    rintro rfl
    simp [Double.whole?] at hwhole
  have hplace := Decimal.place_le hm hlt hq
  have hdigits := pointed_digits (Decimal.shortest m q)
  have hbody : DecimalStyle.plain.layout (Decimal.shortest m q).pointed.1
      (Decimal.shortest m q).pointed.2 ≠ [] ∧
      ∀ c ∈ DecimalStyle.plain.layout (Decimal.shortest m q).pointed.1
        (Decimal.shortest m q).pointed.2, Line.isAtomChar c = true := by
    rw [DecimalStyle.layout]
    split
    · exact ⟨(laid_positional hdigits).ne_nil, isAtomChar_of_mem_positional hdigits⟩
    · rename_i hrange
      have hnegative : (Decimal.shortest m q).pointed.2 ≤ 0 := by
        simp only [DecimalStyle.plain] at hrange
        omega
      exact ⟨(laid_scientific hdigits).ne_nil, isAtomChar_of_mem_scientific hdigits hnegative⟩
  rw [Double.text, String.toList_ofList, Double.chars, if_neg hm]
  cases negative with
  | false => exact Line.isAtom_of_forall hbody.1 hbody.2
  | true =>
      refine Line.isAtom_of_forall (List.cons_ne_nil _ _) fun c hc => ?_
      rcases List.mem_cons.1 hc with rfl | hc
      · decide
      · exact hbody.2 c hc

/-- The operand for the value of a numeral is an atom. -/
theorem isAtom_plain {token text : String} {quantity : Quantity}
    (hread : Quantity.read? token = some quantity) (h : quantity.plain = .ok text) :
    Line.isAtom text.toList = true := by
  obtain ⟨n, rfl⟩ | ⟨x, rfl, hwhole, rfl⟩ := plain_eq_ok h
  · exact isAtom_intText n
  · rw [Quantity.read?] at hread
    split at hread
    · cases hread
    · obtain ⟨numeral, -, heq⟩ := Option.map_eq_some_iff.1 hread
      cases x with
      | finite negative m q =>
          exact isAtom_text (inRange_of_toDouble (Quantity.double.inj heq)).mantissa hwhole
      | infinite negative => cases negative <;> decide
      | nan => decide

end ChipAsm
