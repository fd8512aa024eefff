import Mathlib.Data.Nat.Digits.Lemmas
import ChipAsm.Proofs.Rounding
import ChipAsm.Operand

/-!
# Hexadecimal constants

A hexadecimal numeral may be an operand, and it may be what a constant is defined as.  The operand is
written in decimal at once.  The constant is converted to a double, to see whether it has a fractional
part, and then the integer is written and not the double.  So both become the decimal numeral of the number
(`classify_hexNumeral`, `resolve_hexNumeral`), which is read as the number again.

An operand has at most `digitLimit` digits, and the constant has a double.  The second condition implies
the first.
-/

namespace ChipAsm

open ChipAsm.Text ChipAsm.Token ChipAsm.Number

/-! ## Digits -/

/-- The hexadecimal digits by value. -/
def hexLetters : List Char :=
  ['0', '1', '2', '3', '4', '5', '6', '7', '8', '9', 'a', 'b', 'c', 'd', 'e', 'f']

/-- A hexadecimal digit in either case. -/
def isHexDigit (c : Char) : Bool := (hexLetters ++ hexLetters.map Char.toUpper).contains c

/-- The value of a hexadecimal digit. -/
def hexDigitValue (c : Char) : Nat := hexLetters.idxOf c.toLower

/-- The number that hexadecimal digits write, the first the most significant. -/
def hexNumber (digits : List Char) : Nat := Nat.ofDigits 16 (digits.map hexDigitValue).reverse

theorem hexNumber_cons (c : Char) (cs : List Char) :
    hexNumber (c :: cs) = 16 ^ cs.length * hexDigitValue c + hexNumber cs := by
  simp [hexNumber, Nat.ofDigits_append, Nat.add_comm]

theorem hexValue?_of_isHexDigit {c : Char} (h : isHexDigit c = true) :
    hexValue? c = some (hexDigitValue c) := by
  have htable : (hexLetters ++ hexLetters.map Char.toUpper).all
      (fun c => hexValue? c == some (hexDigitValue c)) = true := by decide
  exact eq_of_beq (List.all_eq_true.1 htable c (List.contains_iff_mem.1 h))

/-- The reader has what the digits behind it leave of its value, and adds what they write. -/
theorem hexFrom?_eq {digits : List Char} (h : ∀ c ∈ digits, isHexDigit c = true) (n : Nat) :
    hexFrom? n digits = some (16 ^ digits.length * n + hexNumber digits) := by
  induction digits generalizing n with
  | nil => simp [hexFrom?, hexNumber]
  | cons c cs ih =>
      rw [List.forall_mem_cons] at h
      rw [hexFrom?, hexValue?_of_isHexDigit h.1, Option.bind_some, ih h.2, hexNumber_cons,
        List.length_cons, Option.some.injEq]
      ring

/-! ## Numerals -/

/-- A hexadecimal numeral with the given digits. -/
structure IsHexNumeral (digits : List Char) (token : String) : Prop where
  /-- One of two marks stands in front of the digits. -/
  written : token.toList = '0' :: 'x' :: digits ∨ token.toList = '$' :: digits
  /-- There are digits. -/
  nonempty : digits ≠ []
  /-- They are in any case, and the first may be zeros. -/
  digits : ∀ c ∈ digits, isHexDigit c = true

namespace IsHexNumeral

variable {digits : List Char} {token : String}

theorem not_mem (h : IsHexNumeral digits token) {c : Char} (hc : isHexDigit c = false)
    (hmark : c ≠ 'x' ∧ c ≠ '$') : c ∉ token.toList := by
  have hdigits : c ∉ digits := fun hmem => by simp [h.digits c hmem] at hc
  have hzero : c ≠ '0' := by
    rintro rfl
    cases hc
  rcases h.written with hchars | hchars
  · simp [hchars, hdigits, hzero, hmark.1]
  · simp [hchars, hdigits, hmark.2]

theorem chomp_toList (h : IsHexNumeral digits token) : chomp token.toList = token.toList :=
  chomp_of_not_mem (h.not_mem (by decide) (by decide))

theorem readHex? (h : IsHexNumeral digits token) : readHex? token = some (hexNumber digits) := by
  have hmark : dropHexMark? token.toList = some digits := by
    rcases h.written with hchars | hchars
    · rw [hchars, dropHexMark?]
    · rw [hchars]
      rfl
  have hchomp : chomp digits = digits :=
    chomp_of_not_mem fun hmem => by cases h.digits _ hmem
  have hread := hexFrom?_eq h.digits 0
  rw [Nat.mul_zero, Nat.zero_add] at hread
  rw [Number.readHex?, hmark]
  dsimp only
  rw [hchomp]
  cases hdigits : digits with
  | nil => exact absurd hdigits h.nonempty
  | cons c cs => rwa [hdigits] at hread

/-- A mark stands in no decimal numeral, and no register and no device pin starts with one. -/
theorem shape_eq (h : IsHexNumeral digits token) : Shape.of token = .hex (hexNumber digits) := by
  have hhead : ∃ c rest, chomp token.toList = c :: rest ∧ (c = '0' ∨ c = '$') := by
    rw [h.chomp_toList]
    rcases h.written with hchars | hchars
    · exact ⟨_, _, hchars, .inl rfl⟩
    · exact ⟨_, _, hchars, .inr rfl⟩
  obtain ⟨c, rest, hchars, hc⟩ := hhead
  have hnumber : isNumber token = false := by
    rw [← Bool.not_eq_true]
    intro hnumber
    have hall := isNumeralChar_of_isNumber hnumber
    rw [h.chomp_toList] at hall
    rcases h.written with hwritten | hwritten
    · have hx := hall 'x' (by simp [hwritten])
      cases hx
    · have hx := hall '$' (by simp [hwritten])
      cases hx
  have hcall : isCall token = false := by
    rw [isCall, read?_call_eq_none (h.not_mem (by decide) (by decide))]
    rfl
  have hdevice : isDevice token = false := by
    rw [← Bool.not_eq_true]
    intro hdevice
    obtain ⟨rest', hchars'⟩ := head_of_isDevice hdevice
    rw [hchars, List.cons.injEq] at hchars'
    rcases hc with rfl | rfl <;> cases hchars'.1
  have hregister : isRegister token = false := by
    rw [← Bool.not_eq_true]
    intro hregister
    obtain ⟨d, rest', hchars', hd⟩ := head_of_isRegister hregister
    rw [hchars, List.cons.injEq] at hchars'
    rcases hc with rfl | rfl <;> rcases hd with rfl | rfl <;> cases hchars'.1
  rw [Shape.of, hnumber, hcall, hdevice, hregister, h.readHex?]
  rfl

end IsHexNumeral

/-! ## The two paths -/

theorem intText_natCast (n : Nat) : intText n = toString n := by
  rw [intText, intChars, if_neg (by omega)]
  rfl

theorem length_toString (n : Nat) : (toString n).length = (natDigits n).length :=
  String.length_ofList

theorem classify_hexNumeral {digits : List Char} {token : String} (h : IsHexNumeral digits token)
    (find : String → Option Found) (substitute : Bool) :
    Operand.classify token find substitute =
      if digitLimit < (toString (hexNumber digits)).length then .error .writeTooLong
      else .ok ⟨.constant, toString (hexNumber digits), none⟩ := by
  rw [Operand.classify, h.shape_eq, length_toString, ← intText_natCast]
  dsimp only
  rw [writeInt, Int.natAbs_natCast]
  split <;> rfl

theorem resolve_hexNumeral {digits : List Char} {token : String} (h : IsHexNumeral digits token)
    (home : Nat) (name : String) (offset : Int) :
    (Symbol.constant home name token).resolve offset =
      if Double.ofRatio false (hexNumber digits) 1 = .infinite false then .error .beyondDouble
      else .ok (toString (hexNumber digits)) := by
  rw [Symbol.resolve, Quantity.read?, h.readHex?]
  dsimp only
  rw [plain_whole, Int.natAbs_natCast, intText_natCast]
  simp only [Double.ofRatio_eq_infinite_iff]

/-- A number that has a double has far fewer digits than can be written. -/
theorem length_toString_le {n : Nat} (h : Double.ofRatio false n 1 ≠ .infinite false) :
    (toString n).length ≤ digitLimit := by
  rw [Ne, Double.ofRatio_eq_infinite_iff, Nat.not_le] at h
  rw [length_toString]
  have hlimit : Double.doubleRange ≤ Nat.pow 10 digitLimit := by decide +kernel
  exact length_natDigits_le (by decide) (Nat.lt_of_lt_of_le h hlimit)

theorem readInt?_toString {n : Nat} (h : (toString n).length ≤ digitLimit) :
    readInt? (toString n) = some (.ok n) := by
  rw [length_toString] at h
  have hwrite : writeInt n = .ok (intText n) := by
    rw [writeInt, Int.natAbs_natCast, if_neg (Nat.not_lt.2 h)]
  rw [← intText_natCast]
  exact (readInt?_of_writeInt hwrite).2

/-- A hexadecimal numeral is exact on both paths.  As an operand it becomes the decimal numeral of its
number, if that has at most 4300 digits.  A constant that is defined by it stands for the same numeral, if
the number has a double nearest to it.  Then the numeral has no more than 4300 digits, and a numeral of so
many digits is read as the number. -/
theorem hexNumeral_exact {digits : List Char} {token : String} (h : IsHexNumeral digits token)
    (find : String → Option Found) (substitute : Bool) (home : Nat) (name : String) (offset : Int) :
    Operand.classify token find substitute =
        (if 4300 < (toString (hexNumber digits)).length then .error .writeTooLong
        else .ok ⟨.constant, toString (hexNumber digits), none⟩) ∧
      (Symbol.constant home name token).resolve offset =
        (if Double.ofRatio false (hexNumber digits) 1 = .infinite false then .error .beyondDouble
        else .ok (toString (hexNumber digits))) ∧
      (Double.ofRatio false (hexNumber digits) 1 ≠ .infinite false →
        (toString (hexNumber digits)).length ≤ 4300) ∧
      ((toString (hexNumber digits)).length ≤ 4300 →
        readInt? (toString (hexNumber digits)) = some (.ok (hexNumber digits))) :=
  ⟨classify_hexNumeral h find substitute, resolve_hexNumeral h home name offset, length_toString_le,
    readInt?_toString⟩

/-- The largest number of 64 bits, whose double is the next one. -/
theorem hexNumeral_exact_word :
    IsHexNumeral ('0' :: List.replicate 15 'f' ++ ['F']) "$0fffffffffffffffF" ∧
      Operand.classify "$0fffffffffffffffF" (fun _ => none) true =
        .ok ⟨.constant, "18446744073709551615", none⟩ ∧
      (Symbol.constant 0 "mask" "$0fffffffffffffffF").resolve 0 = .ok "18446744073709551615" ∧
      readInt? "18446744073709551615" = some (.ok 18446744073709551615) := by
  have hnumeral : IsHexNumeral ('0' :: List.replicate 15 'f' ++ ['F']) "$0fffffffffffffffF" :=
    ⟨.inr (by decide), by decide, List.all_eq_true.1 (by decide)⟩
  have hnumber : hexNumber ('0' :: List.replicate 15 'f' ++ ['F']) = 18446744073709551615 := by
    decide +kernel
  obtain ⟨hclassify, hresolve, -, hread⟩ :=
    hexNumeral_exact hnumeral (fun _ => none) true 0 "mask" 0
  rw [hnumber] at hclassify hresolve hread
  refine ⟨hnumeral, hclassify.trans ?_, hresolve.trans ?_, hread ?_⟩
  · decide +kernel
  · decide +kernel
  · decide +kernel

end ChipAsm
