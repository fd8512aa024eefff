import Mathlib.Data.List.TakeWhile
import ChipAsm.Number.Quantity
import ChipAsm.Proofs.Token

/-!
# Written numbers are numerals

`Laid` is the grammar of the numbers that are written: digits, with a point and digits behind it or
without, and with an exponent or without.  All of them are read as decimal numerals (`Laid.reads`), and
every number that can stand for an operand is laid out in this way: the integers, and the shortest
decimals of the finite doubles (`isNumber_plain`).

A decimal numeral has no characters but digits, signs, a point and the mark of an exponent
(`mem_of_ofChars?`).  So it is no call, no register and no device pin.
-/

namespace ChipAsm

open ChipAsm.Text ChipAsm.Token ChipAsm.Number

/-! ## The grammar -/

/-- An exponent, or nothing. -/
inductive IsPower : List Char → Prop where
  | absent : IsPower []
  | present {sign : Char} {digits : List Char} (hsign : sign = '-' ∨ sign = '+')
    (hne : digits ≠ []) (hdigits : ∀ c ∈ digits, c.isDigit = true) :
    IsPower ('e' :: sign :: digits)

/-- A number without a sign, as it is written. -/
inductive Laid : List Char → Prop where
  | bare {whole power : List Char} (hne : whole ≠ []) (hwhole : ∀ c ∈ whole, c.isDigit = true)
    (hpower : IsPower power) : Laid (whole ++ power)
  | pointed {whole fraction power : List Char} (hne : whole ≠ [])
    (hwhole : ∀ c ∈ whole, c.isDigit = true) (hfraction : ∀ c ∈ fraction, c.isDigit = true)
    (hpower : IsPower power) : Laid (whole ++ '.' :: (fraction ++ power))

/-- A minus sign in front of what is negative. -/
def withSign (negative : Bool) (body : List Char) : List Char :=
  if negative then '-' :: body else body

theorem isDigit_of_ascii {c : Char} (h : c.isDigit = true) : Text.isDigit c = true := by
  rw [Text.isDigit, digitValue?_of_isDigit h]
  rfl

theorem IsPower.stopsAt {power : List Char} (h : IsPower power) :
    Line.StopsAt Text.isDigit power := by
  cases h with
  | absent =>
      intro c hc
      cases hc
  | present hsign hne hdigits =>
      intro c hc
      cases hc
      decide

theorem IsPower.reads {power : List Char} (h : IsPower power) :
    (Numeral.exponent? power).isSome = true := by
  cases h with
  | absent => rfl
  | @present sign digits hsign hne hdigits =>
      have hall : isDigits digits = true := by
        simp only [isDigits, Bool.and_eq_true, Bool.not_eq_true', List.isEmpty_eq_false_iff,
          List.all_eq_true]
        exact ⟨hne, fun c hc => isDigit_of_ascii (hdigits c hc)⟩
      rcases hsign with rfl | rfl
      · simp [Numeral.exponent?, splitSign, hall]
      · simp [Numeral.exponent?, splitSign, hall]

theorem splitSign_withSign {negative : Bool} {c : Char} {cs : List Char} (h : c.isDigit = true) :
    splitSign (withSign negative (c :: cs)) = (negative, c :: cs) := by
  cases negative with
  | true => rfl
  | false =>
      rw [withSign, if_neg (by decide), splitSign]
      · rintro cs' heq
        cases heq
        cases h
      · rintro cs' heq
        cases heq
        cases h

/-- What is left behind the sign and the digits before the point is a fraction and an exponent. -/
theorem ofChars?_isSome {negative : Bool} {whole rest : List Char} (hne : whole ≠ [])
    (hwhole : ∀ c ∈ whole, c.isDigit = true) (hrest : Line.StopsAt Text.isDigit rest)
    (hpower : (Numeral.exponent? (Numeral.splitFraction rest).2).isSome = true) :
    (Numeral.ofChars? (withSign negative (whole ++ rest))).isSome = true := by
  have hdigits : ∀ c ∈ whole, Text.isDigit c = true := fun c hc => isDigit_of_ascii (hwhole c hc)
  have hsign : splitSign (withSign negative (whole ++ rest)) = (negative, whole ++ rest) := by
    cases whole with
    | nil => exact absurd rfl hne
    | cons c whole => exact splitSign_withSign (hwhole c (List.mem_cons_self ..))
  have hsplit : Numeral.splitDigits (whole ++ rest) = (whole, rest) := by
    rw [Numeral.splitDigits, Line.takeWhile_append_of_stopsAt hdigits hrest,
      Line.dropWhile_append_of_stopsAt hdigits hrest]
  have hempty : whole.isEmpty = false := List.isEmpty_eq_false_iff.2 hne
  simp only [Numeral.ofChars?, hsign, hsplit, hempty, Bool.false_and, Bool.false_eq_true, if_false,
    Option.isSome_map]
  exact hpower

theorem Laid.reads {body : List Char} (h : Laid body) (negative : Bool) :
    (Numeral.ofChars? (withSign negative body)).isSome = true := by
  cases h with
  | @bare whole power hne hwhole hpower =>
      apply ofChars?_isSome hne hwhole hpower.stopsAt
      cases hpower with
      | absent => rfl
      | present hsign hne' hdigits => exact (IsPower.present hsign hne' hdigits).reads
  | @pointed whole fraction power hne hwhole hfraction hpower =>
      apply ofChars?_isSome hne hwhole
      · intro c hc
        cases hc
        decide
      · have hdigits : ∀ c ∈ fraction, Text.isDigit c = true :=
          fun c hc => isDigit_of_ascii (hfraction c hc)
        rw [Numeral.splitFraction, Numeral.splitDigits,
          Line.dropWhile_append_of_stopsAt hdigits hpower.stopsAt]
        exact hpower.reads

theorem Laid.no_newline {body : List Char} (h : Laid body) (negative : Bool) :
    '\n' ∉ withSign negative body := by
  have hdigit : ∀ {cs : List Char}, (∀ c ∈ cs, c.isDigit = true) → '\n' ∉ cs := by
    intro cs hcs hmem
    cases hcs _ hmem
  have hpower : ∀ {power : List Char}, IsPower power → '\n' ∉ power := by
    intro power hpower
    cases hpower with
    | absent => simp
    | present hsign hne hdigits => rcases hsign with rfl | rfl <;> simp [hdigit hdigits]
  have hbody : '\n' ∉ body := by
    cases h with
    | bare hne hwhole hp => simp [hdigit hwhole, hpower hp]
    | pointed hne hwhole hfraction hp => simp [hdigit hwhole, hdigit hfraction, hpower hp]
  cases negative with
  | true => simpa [withSign] using hbody
  | false => simpa [withSign] using hbody

/-- A number that is laid out, with a sign or without, is a decimal numeral. -/
theorem Laid.isNumber {body : List Char} (h : Laid body) (negative : Bool) :
    isNumber (String.ofList (withSign negative body)) = true := by
  rw [Token.isNumber, Numeral.read?, String.toList_ofList, chomp_of_not_mem (h.no_newline negative)]
  exact h.reads negative

/-! ## What is written -/

theorem laid_natDigits (n : Nat) : Laid (natDigits n) := by
  have hbare : Laid (natDigits n ++ []) :=
    .bare Nat.toDigits_ne_nil (fun _ hc => isDigit_of_mem_natDigits hc) .absent
  rwa [List.append_nil] at hbare

theorem isNumber_natDigits (n : Nat) : isNumber (String.ofList (natDigits n)) = true :=
  (laid_natDigits n).isNumber false

theorem isNumber_intText (n : Int) : isNumber (intText n) = true := by
  have hsign : intChars n = withSign (decide (n < 0)) (natDigits n.natAbs) := by
    by_cases hneg : n < 0
    · simp [intChars, withSign, hneg]
    · simp [intChars, withSign, hneg]
  rw [intText, hsign]
  exact (laid_natDigits n.natAbs).isNumber _

theorem isDigit_of_mem_replicate {n : Nat} {c : Char} (h : c ∈ List.replicate n '0') :
    c.isDigit = true := by
  rw [List.eq_of_mem_replicate h]
  decide

theorem laid_positional {digits : List Char} {place : Int}
    (hdigits : ∀ c ∈ digits, c.isDigit = true) : Laid (positional digits place) := by
  rw [positional]
  split
  · have hfraction : ∀ c ∈ List.replicate place.natAbs '0' ++ digits, c.isDigit = true := by
      intro c hc
      rcases List.mem_append.1 hc with hc | hc
      · exact isDigit_of_mem_replicate hc
      · exact hdigits c hc
    have hlaid : Laid (['0'] ++ '.' :: (List.replicate place.natAbs '0' ++ digits ++ [])) :=
      .pointed (List.cons_ne_nil _ _) (by simp) hfraction .absent
    simpa using hlaid
  · rename_i hplace
    have hpositive : 0 < place.natAbs := by omega
    split
    · rename_i hshort
      have hwhole : ∀ c ∈ digits ++ List.replicate (place.natAbs - digits.length) '0',
          c.isDigit = true := by
        intro c hc
        rcases List.mem_append.1 hc with hc | hc
        · exact hdigits c hc
        · exact isDigit_of_mem_replicate hc
      have hne : digits ++ List.replicate (place.natAbs - digits.length) '0' ≠ [] := by
        intro hnil
        have hlength := congrArg List.length hnil
        simp only [List.length_append, List.length_replicate, List.length_nil] at hlength
        omega
      have hzero : ∀ c ∈ ['0'], c.isDigit = true := by simp
      have hlaid := Laid.pointed hne hwhole hzero .absent
      simpa using hlaid
    · rename_i hlong
      have hne : digits.take place.natAbs ≠ [] := by
        intro hnil
        have hlength := congrArg List.length hnil
        simp only [List.length_take, List.length_nil] at hlength
        omega
      have hfraction : ∀ c ∈ digits.drop place.natAbs, c.isDigit = true :=
        fun c hc => hdigits c (List.mem_of_mem_drop hc)
      have hlaid := Laid.pointed hne (fun c hc => hdigits c (List.mem_of_mem_take hc)) hfraction
        .absent
      simpa using hlaid

theorem laid_scientific {digits : List Char} {place : Int} {width : Nat}
    (hdigits : ∀ c ∈ digits, c.isDigit = true) : Laid (scientific width digits place) := by
  have hpower : IsPower ('e' :: (if place - 1 < 0 then '-' else '+') ::
      (List.replicate (width - (natDigits (place - 1).natAbs).length) '0'
        ++ natDigits (place - 1).natAbs)) := by
    refine .present ?_ ?_ ?_
    · split
      · exact .inl rfl
      · exact .inr rfl
    · have hne : natDigits (place - 1).natAbs ≠ [] := Nat.toDigits_ne_nil
      simp [hne]
    · intro c hc
      rcases List.mem_append.1 hc with hc | hc
      · exact isDigit_of_mem_replicate hc
      · exact isDigit_of_mem_natDigits hc
  unfold scientific
  cases digits with
  | nil =>
      have hzero : ∀ c ∈ ['0'], c.isDigit = true := by simp
      have hlaid := Laid.bare (List.cons_ne_nil _ _) hzero hpower
      exact hlaid
  | cons d more =>
      have hfirst : ∀ c ∈ [d], c.isDigit = true := by
        intro c hc
        exact hdigits c (by simpa using .inl (List.mem_singleton.1 hc))
      cases more with
      | nil =>
          have hlaid := Laid.bare (List.cons_ne_nil _ _) hfirst hpower
          exact hlaid
      | cons d' more =>
          have hlaid := Laid.pointed (List.cons_ne_nil _ _) hfirst
            (fun c hc => hdigits c (List.mem_cons_of_mem _ hc)) hpower
          simpa using hlaid

theorem pointed_digits (d : Decimal) : ∀ c ∈ d.pointed.1, c.isDigit = true := by
  intro c hc
  rw [Decimal.pointed] at hc
  have hmem := (List.dropWhile_suffix _).subset (List.mem_reverse.1 hc)
  exact isDigit_of_mem_natDigits (List.mem_reverse.1 hmem)

/-- The text of a finite double is a decimal numeral. -/
theorem isNumber_text (negative : Bool) (m : Nat) (q : Int) :
    isNumber (Double.finite negative m q).text = true := by
  have hlaid : Laid (if m = 0 then ['0', '.', '0']
      else DecimalStyle.plain.layout (Decimal.shortest m q).pointed.1
        (Decimal.shortest m q).pointed.2) := by
    split
    · have hzero : ∀ c ∈ ['0'], c.isDigit = true := by simp
      exact .pointed (List.cons_ne_nil _ _) hzero hzero .absent
    · rw [DecimalStyle.layout]
      split
      · exact laid_positional (pointed_digits _)
      · exact laid_scientific (pointed_digits _)
  exact hlaid.isNumber negative

/-- The quantity is within the range of the doubles. -/
def Number.Quantity.isFinite : Quantity → Bool
  | .whole _ => true
  | .double (.finite ..) => true
  | .double _ => false

/-- The operand for a quantity is the numeral of an integer, or the text of a double with a fractional
part. -/
theorem plain_eq_ok {quantity : Quantity} {text : String} (h : quantity.plain = .ok text) :
    (∃ n, text = intText n) ∨ ∃ x, quantity = .double x ∧ x.whole? = none ∧ text = x.text := by
  have hwrite : ∀ n, writeInt n = .ok text → ∃ n, text = intText n :=
    fun n hn => ⟨n, (readInt?_of_writeInt hn).1⟩
  rw [Quantity.plain] at h
  cases hwhole : quantity.whole? with
  | error fault =>
      rw [hwhole] at h
      cases h
  | ok found =>
      rw [hwhole] at h
      cases found with
      | some n => exact .inl (hwrite n h)
      | none =>
          cases quantity with
          | whole n => exact .inl (hwrite n h)
          | double x =>
              cases h
              exact .inr ⟨x, rfl, Except.ok.inj hwhole, rfl⟩

/-- The operand for a finite quantity is a decimal numeral. -/
theorem isNumber_plain {quantity : Quantity} {text : String} (hfinite : quantity.isFinite = true)
    (h : quantity.plain = .ok text) : isNumber text = true := by
  obtain ⟨n, rfl⟩ | ⟨x, rfl, -, rfl⟩ := plain_eq_ok h
  · exact isNumber_intText n
  · cases x with
    | finite negative m q => exact isNumber_text negative m q
    | infinite negative => cases hfinite
    | nan => cases hfinite

/-! ## What a numeral is not -/

/-- A character of a decimal numeral. -/
def isNumeralChar (c : Char) : Bool :=
  Text.isDigit c || c == '-' || c == '+' || c == '.' || c == 'e' || c == 'E'

theorem isNumeralChar_of_isDigit {c : Char} (h : Text.isDigit c = true) :
    isNumeralChar c = true := by
  simp [isNumeralChar, h]

theorem mem_splitSign {cs : List Char} {c : Char} (h : c ∈ cs) :
    (c = '-' ∨ c = '+') ∨ c ∈ (splitSign cs).2 := by
  unfold splitSign
  split
  · exact (List.mem_cons.1 h).imp_left .inl
  · exact (List.mem_cons.1 h).imp_left .inr
  · exact .inr h

theorem isNumeralChar_of_sign {c : Char} (h : c = '-' ∨ c = '+') : isNumeralChar c = true := by
  rcases h with rfl | rfl <;> decide

theorem mem_splitDigits {cs : List Char} {c : Char} (h : c ∈ cs) :
    isNumeralChar c = true ∨ c ∈ (Numeral.splitDigits cs).2 := by
  rw [← List.takeWhile_append_dropWhile (p := Text.isDigit) (l := cs)] at h
  rcases List.mem_append.1 h with h | h
  · exact .inl (isNumeralChar_of_isDigit (List.mem_takeWhile_imp h))
  · exact .inr h

theorem mem_splitFraction {cs : List Char} {c : Char} (h : c ∈ cs) :
    isNumeralChar c = true ∨ c ∈ (Numeral.splitFraction cs).2 := by
  unfold Numeral.splitFraction
  split
  · rcases List.mem_cons.1 h with rfl | h
    · exact .inl (by decide)
    · exact mem_splitDigits h
  · exact .inr h

theorem mem_of_exponent? {cs : List Char} {n : Int} (h : Numeral.exponent? cs = some n) :
    ∀ c ∈ cs, isNumeralChar c = true := by
  intro c hc
  cases cs with
  | nil => cases hc
  | cons mark cs =>
      rw [Numeral.exponent?] at h
      split at h
      · rename_i hmark
        dsimp only at h
        split at h
        · rename_i hdigits
          rcases List.mem_cons.1 hc with rfl | hc
          · rcases hmark with rfl | rfl
            · decide
            · decide
          · rcases mem_splitSign hc with hc | hc
            · exact isNumeralChar_of_sign hc
            · rw [isDigits, Bool.and_eq_true, List.all_eq_true] at hdigits
              exact isNumeralChar_of_isDigit (hdigits.2 c hc)
        · cases h
      · cases h

theorem mem_of_ofChars? {cs : List Char} {n : Numeral} (h : Numeral.ofChars? cs = some n) :
    ∀ c ∈ cs, isNumeralChar c = true := by
  intro c hc
  rw [Numeral.ofChars?] at h
  dsimp only at h
  split at h
  · cases h
  · obtain ⟨exponent, hexponent, -⟩ := Option.map_eq_some_iff.1 h
    rcases mem_splitSign hc with hc | hc
    · exact isNumeralChar_of_sign hc
    · rcases mem_splitDigits hc with hc | hc
      · exact hc
      · rcases mem_splitFraction hc with hc | hc
        · exact hc
        · exact mem_of_exponent? hexponent c hc

theorem mem_chomp {cs : List Char} {c : Char} (h : c ∈ cs) (hc : c ≠ '\n') : c ∈ chomp cs := by
  fun_induction chomp cs with
  | case1 => exact h
  | case2 => exact absurd (List.mem_singleton.1 h) hc
  | case3 d cs hne ih =>
      rcases List.mem_cons.1 h with rfl | h
      · exact List.mem_cons_self ..
      · exact List.mem_cons_of_mem _ (ih h)

theorem isNumeralChar_of_isNumber {token : String} (h : isNumber token = true) :
    ∀ c ∈ chomp token.toList, isNumeralChar c = true := by
  obtain ⟨n, hn⟩ := Option.isSome_iff_exists.1 h
  exact mem_of_ofChars? hn

theorem expand_of_isNumber {token : String} (h : isNumber token = true) : expand token = token := by
  apply expand_of_no_call
  intro hmem
  have hchar := isNumeralChar_of_isNumber h _ (mem_chomp hmem (by decide))
  revert hchar
  decide

/-- A register starts with one of two letters. -/
theorem head_of_isRegister {token : String} (h : isRegister token = true) :
    ∃ c rest, chomp token.toList = c :: rest ∧ (c = 's' ∨ c = 'r') := by
  rw [isRegister] at h
  unfold isRegisterChars at h
  split at h
  · rename_i heq
    exact ⟨_, _, heq, .inl rfl⟩
  · unfold isNumberedRegister at h
    split at h
    · rename_i heq
      exact ⟨_, _, heq, .inr rfl⟩
    · cases h

theorem head_of_isDevice {token : String} (h : isDevice token = true) :
    ∃ rest, chomp token.toList = 'd' :: rest := by
  rw [isDevice] at h
  unfold isDeviceChars at h
  split at h
  · rename_i heq
    exact ⟨_, heq⟩
  · cases h

theorem isRegister_of_isNumber {token : String} (h : isNumber token = true) :
    isRegister token = false := by
  rw [← Bool.not_eq_true]
  intro hregister
  obtain ⟨c, rest, hchars, hc⟩ := head_of_isRegister hregister
  have hchar := isNumeralChar_of_isNumber h c (hchars ▸ List.mem_cons_self ..)
  rcases hc with rfl | rfl
  · revert hchar
    decide
  · revert hchar
    decide

theorem isNumber_of_isDevice {token : String} (h : isDevice token = true) :
    isNumber token = false := by
  rw [← Bool.not_eq_true]
  intro hnumber
  obtain ⟨rest, hchars⟩ := head_of_isDevice h
  have hchar := isNumeralChar_of_isNumber hnumber 'd' (hchars ▸ List.mem_cons_self ..)
  revert hchar
  decide

/-- An integer numeral is a decimal numeral. -/
theorem isNumber_of_readInt? {token : String} (h : (readInt? token).isSome = true) :
    isNumber token = true := by
  rw [readInt?] at h
  dsimp only at h
  split at h
  · rename_i hdigits
    rw [isDigits, Bool.and_eq_true, Bool.not_eq_true', List.all_eq_true] at hdigits
    have htake : (splitSign (chomp token.toList)).2.takeWhile Text.isDigit =
        (splitSign (chomp token.toList)).2 := List.takeWhile_eq_self_iff.2 hdigits.2
    have hdrop : (splitSign (chomp token.toList)).2.dropWhile Text.isDigit = [] :=
      List.dropWhile_eq_nil_iff.2 hdigits.2
    simp [isNumber, Numeral.read?, Numeral.ofChars?, Numeral.splitDigits, htake, hdrop,
      Numeral.splitFraction, hdigits.1, Numeral.exponent?]
  · cases h

end ChipAsm
