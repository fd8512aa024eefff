import ChipAsm.Proofs.Line
import ChipAsm.Token.Shape

/-!
# Numerals and words

The decimal numeral of an integer reads back as the integer (`readInt?_intText`), and it is no call,
so expanding calls leaves it as it is.

The name of a label starts with a letter or an underscore and goes on with those and ASCII digits.
So it is no numeral and no call.  It may look like a register or a device pin; if it does not, it is
a word (`shape_of_isLabelName`).
-/

namespace ChipAsm

open ChipAsm.Text ChipAsm.Token ChipAsm.Number

/-! ## Calls -/

/-- A call has a parenthesis. -/
theorem read?_call_eq_none {token : String} (h : '(' ∉ token.toList) : Call.read? token = none := by
  cases hsplit : Call.split? token.toList with
  | none => simp only [Call.read?, hsplit]
  | some found =>
      have happend := Call.split?_append hsplit
      rw [← happend] at h
      simp [Call.chars] at h

theorem expand_of_no_call {token : String} (h : '(' ∉ token.toList) : expand token = token := by
  simp only [expand, callValue?, read?_call_eq_none h, Option.map_none]

/-! ## Digits -/

theorem digitValue?_of_isDigit {c : Char} (h : c.isDigit = true) :
    digitValue? c = some (c.toNat - 48) := by
  have hrange : 48 ≤ c.toNat ∧ c.toNat < 48 + 10 := by
    obtain ⟨hlow, hhigh⟩ := Line.isDigit_range h
    omega
  rw [digitValue?, zeroDigits, List.findSome?_cons, if_pos hrange]

/-- The digits of scripts other than Latin lie beyond ASCII. -/
theorem isDigit_eq_false_of_range {c : Char} (h : 58 ≤ c.toNat ∧ c.toNat ≤ 122) :
    Text.isDigit c = false := by
  have hzero : ∀ z ∈ zeroDigits, z = 48 ∨ 0x660 ≤ z := by decide
  have hnone : digitValue? c = none := by
    rw [digitValue?, List.findSome?_eq_none_iff]
    intro z hz
    rw [if_neg]
    rcases hzero z hz with rfl | hz
    · omega
    · omega
  rw [Text.isDigit, hnone]
  rfl

theorem isDigit_of_mem_natDigits {n : Nat} {c : Char} (h : c ∈ natDigits n) : c.isDigit = true :=
  Nat.isDigit_of_mem_toDigits (by decide) (by decide) h

theorem digitsValue_natDigits (n : Nat) : digitsValue (natDigits n) = n := by
  have hfold : ∀ (cs : List Char) (sum : Nat), (∀ c ∈ cs, c.isDigit = true) →
      cs.foldl (fun sum c => 10 * sum + digitValue c) sum = Nat.ofDigitChars 10 cs sum := by
    intro cs
    induction cs with
    | nil => simp
    | cons c cs ih =>
        intro sum hcs
        rw [List.foldl_cons, Nat.ofDigitChars_cons, digitValue,
          digitValue?_of_isDigit (hcs c (List.mem_cons_self ..))]
        exact ih _ fun d hd => hcs d (List.mem_cons_of_mem _ hd)
  rw [digitsValue, hfold _ _ fun c hc => isDigit_of_mem_natDigits hc]
  exact Nat.ofDigitChars_ten_toDigits

theorem isDigits_natDigits (n : Nat) : isDigits (natDigits n) = true := by
  have hall : (natDigits n).all Text.isDigit = true := by
    rw [List.all_eq_true]
    intro c hc
    rw [Text.isDigit, digitValue?_of_isDigit (isDigit_of_mem_natDigits hc)]
    rfl
  have hne : natDigits n ≠ [] := Nat.toDigits_ne_nil
  simp [isDigits, hall, hne]

/-! ## Integers -/

theorem chomp_of_not_mem {cs : List Char} (h : '\n' ∉ cs) : chomp cs = cs := by
  induction cs with
  | nil => rfl
  | cons c cs ih =>
      rw [List.mem_cons, not_or] at h
      rw [chomp]
      · rw [ih h.2]
      · rintro rfl
        exact absurd rfl h.1

/-- The characters of a decimal numeral: digits and the minus sign. -/
theorem mem_intChars {n : Int} {c : Char} (h : c ∈ intChars n) : c = '-' ∨ c.isDigit = true := by
  rw [intChars] at h
  split at h
  · rcases List.mem_cons.1 h with rfl | h
    · exact .inl rfl
    · exact .inr (isDigit_of_mem_natDigits h)
  · exact .inr (isDigit_of_mem_natDigits h)

theorem splitSign_natDigits (n : Nat) : splitSign (natDigits n) = (false, natDigits n) := by
  cases hdigits : natDigits n with
  | nil => rfl
  | cons c cs =>
      have hc : c.isDigit = true := by
        apply isDigit_of_mem_natDigits (n := n)
        rw [hdigits]
        exact List.mem_cons_self ..
      unfold splitSign
      split
      · rename_i heq
        cases heq
        cases hc
      · rename_i heq
        cases heq
        cases hc
      · rfl

theorem splitSign_intChars (n : Int) :
    splitSign (intChars n) = (decide (n < 0), natDigits n.natAbs) := by
  rw [intChars]
  split
  · rename_i hneg
    simp [splitSign, hneg]
  · rename_i hneg
    simp [splitSign_natDigits, hneg]

/-- A numeral that can be written can be read, and reads as what was written. -/
theorem readInt?_of_writeInt {n : Int} {text : String} (h : writeInt n = .ok text) :
    text = intText n ∧ readInt? text = some (.ok n) := by
  rw [writeInt] at h
  split at h
  · cases h
  · rename_i hlimit
    cases h
    refine ⟨rfl, ?_⟩
    have hchomp : chomp (intText n).toList = intChars n := by
      rw [intText, String.toList_ofList]
      apply chomp_of_not_mem
      intro hmem
      rcases mem_intChars hmem with h | h
      · cases h
      · cases h
    have hsigned : signed (decide (n < 0)) n.natAbs = n := by
      by_cases hneg : n < 0
      · simp only [signed, hneg, decide_true, if_true]
        omega
      · simp only [signed, hneg, decide_false, Bool.false_eq_true, if_false]
        omega
    simp only [readInt?, hchomp, splitSign_intChars, isDigits_natDigits, if_true, digitsInt,
      hlimit, if_false, digitsValue_natDigits, hsigned]

theorem expand_intText (n : Int) : expand (intText n) = intText n := by
  apply expand_of_no_call
  rw [intText, String.toList_ofList]
  intro hmem
  rcases mem_intChars hmem with h | h
  · cases h
  · cases h

/-! ## Names of labels -/

theorem isLabelStart_range {c : Char} (h : Line.isLabelStart c = true) :
    65 ≤ c.toNat ∧ c.toNat ≤ 122 := by
  rcases Bool.or_eq_true_iff.1 h with halpha | hunderscore
  · exact Line.isAlpha_range halpha
  · rw [eq_of_beq hunderscore]
    decide

/-- A numeral starts with a sign, a digit or a point. -/
theorem numeral_eq_none_of_range {c : Char} {cs : List Char} (h : 65 ≤ c.toNat ∧ c.toNat ≤ 122) :
    Numeral.ofChars? (c :: cs) = none := by
  have hdigit : Text.isDigit c = false := isDigit_eq_false_of_range ⟨by omega, h.2⟩
  have hne : ∀ d : Char, d.toNat < 65 → c ≠ d := by
    rintro d hd rfl
    omega
  have hsign : splitSign (c :: cs) = (false, c :: cs) := by
    rw [splitSign]
    · exact fun _ heq => hne '-' (by decide) (List.cons.inj heq).1
    · exact fun _ heq => hne '+' (by decide) (List.cons.inj heq).1
  have hdigits : Numeral.splitDigits (c :: cs) = ([], c :: cs) := by
    simp [Numeral.splitDigits, hdigit]
  have hfraction : Numeral.splitFraction (c :: cs) = ([], c :: cs) := by
    rw [Numeral.splitFraction]
    exact fun _ heq => hne '.' (by decide) (List.cons.inj heq).1
  simp [Numeral.ofChars?, hsign, hdigits, hfraction]

/-- The name of a label is a word unless it looks like a register or a device pin. -/
theorem shape_of_isLabelName {token : String} (h : Line.isLabelName token.toList = true)
    (hregister : isRegister token = false) (hdevice : isDevice token = false) :
    Shape.of token = .word := by
  have hchars := Line.isLabelChar_of_isLabelName h
  have hchomp : chomp token.toList = token.toList := by
    apply chomp_of_not_mem
    intro hmem
    cases hchars _ hmem
  have hcall : isCall token = false := by
    rw [isCall, read?_call_eq_none]
    · rfl
    · intro hmem
      cases hchars _ hmem
  cases htoken : token.toList with
  | nil =>
      rw [htoken] at h
      cases h
  | cons c cs =>
      rw [htoken] at h hchomp
      have hrange := isLabelStart_range (Bool.and_eq_true_iff.1 h).1
      have hnumber : isNumber token = false := by
        rw [isNumber, Numeral.read?, htoken, hchomp, numeral_eq_none_of_range hrange]
        rfl
      have hhex : readHex? token = none := by
        have hmark : dropHexMark? (c :: cs) = none := by
          unfold dropHexMark?
          split
          · rename_i heq
            cases heq
            exact absurd hrange (by decide)
          · rename_i heq
            cases heq
            exact absurd hrange (by decide)
          · rfl
        rw [readHex?, htoken, hmark]
      simp [Shape.of, hnumber, hcall, hregister, hdevice, hhex]

end ChipAsm
