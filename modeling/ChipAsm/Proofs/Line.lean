import ChipAsm.Line

/-!
# Code lines

Facts about the reader of lines, for lines that are read as code.

The words of a line end at blanks.  A mnemonic is a word of letters and digits that starts with a
letter.  The colon of a label and the parenthesis of a call are part of the word they stand in, so a
mnemonic is neither.

A code line that has operands has a mnemonic, with one exception.  Behind a label the blanks may be
given back to the operands, and a word that is no mnemonic is then read as the first operand.
`opcode_eq_none_iff` says that this is the only way to get operands without a mnemonic.
-/

namespace ChipAsm
open ChipAsm.Text ChipAsm.Token

namespace Text

/-! ## Blanks -/

theorem isBlank_eq_false_of_range {c : Char} (h : 45 ≤ c.toNat ∧ c.toNat ≤ 122) :
    isBlank c = false := by
  simp only [isBlank, Bool.or_eq_false_iff, Bool.and_eq_false_iff, decide_eq_false_iff_not,
    beq_eq_false_iff_ne]
  omega

theorem dropBlanks_cons_of_not_blank {c : Char} {cs : List Char} (h : isBlank c = false) :
    dropBlanks (c :: cs) = c :: cs := by
  simp [dropBlanks, h]

theorem not_blank_of_dropBlanks {cs rest : List Char} {c : Char}
    (h : dropBlanks cs = c :: rest) : isBlank c = false := by
  have hhead := List.head?_dropWhile_not isBlank cs
  rw [show cs.dropWhile isBlank = c :: rest from h] at hhead
  simpa using hhead

theorem dropBlanksEnd_prefix (cs : List Char) : dropBlanksEnd cs <+: cs := by
  have hsuffix : dropBlanks cs.reverse <:+ cs.reverse := List.dropWhile_suffix isBlank
  have hprefix := List.reverse_prefix.2 hsuffix
  rwa [List.reverse_reverse] at hprefix

/-- A stripped text starts with a character that is not blank. -/
theorem not_blank_of_stripChars {text cs : List Char} {c : Char}
    (h : stripChars text = c :: cs) : isBlank c = false := by
  obtain ⟨rest, hrest⟩ := dropBlanksEnd_prefix (dropBlanks text)
  rw [show dropBlanksEnd (dropBlanks text) = c :: cs from h, List.cons_append] at hrest
  exact not_blank_of_dropBlanks hrest.symm

theorem not_gap_of_not_blank {c : Char} (h : isBlank c = false) : isGap c = false := by
  simp [isGap, h]

end Text

namespace Line

/-! ## Runs -/

/-- Behind a run of characters of a class stands one that is not of it, or nothing. -/
def StopsAt (p : Char → Bool) (rest : List Char) : Prop := ∀ c ∈ rest.head?, p c = false

theorem takeWhile_append_of_stopsAt {p : Char → Bool} {run rest : List Char}
    (hrun : ∀ c ∈ run, p c = true) (hrest : StopsAt p rest) : (run ++ rest).takeWhile p = run := by
  rw [List.takeWhile_append_of_pos hrun]
  cases rest with
  | nil => simp
  | cons c rest =>
      have hc : p c = false := hrest c rfl
      simp [hc]

theorem dropWhile_append_of_stopsAt {p : Char → Bool} {run rest : List Char}
    (hrun : ∀ c ∈ run, p c = true) (hrest : StopsAt p rest) : (run ++ rest).dropWhile p = rest := by
  rw [List.dropWhile_append_of_pos hrun]
  cases rest with
  | nil => rfl
  | cons c rest =>
      have hc : p c = false := hrest c rfl
      simp [hc]

theorem stopsAt_dropWhile (p : Char → Bool) (cs : List Char) : StopsAt p (cs.dropWhile p) := by
  intro c hc
  have hhead := List.head?_dropWhile_not p cs
  rw [Option.mem_def.1 hc] at hhead
  simpa using hhead

theorem stopsAt_dropBlanks (cs : List Char) : StopsAt isBlank (dropBlanks cs) :=
  stopsAt_dropWhile isBlank cs

theorem stopsAt_of_blank {p : Char → Bool} {rest : List Char}
    (hp : ∀ c, p c = true → isBlank c = false) (h : ∀ c ∈ rest.head?, isBlank c = true) :
    StopsAt p rest := by
  intro c hc
  cases hpc : p c with
  | false => rfl
  | true =>
      have hblank := h c hc
      rw [hp c hpc] at hblank
      cases hblank

/-! ## Lexical classes -/

/-- A mnemonic: a letter, and letters and digits behind it. -/
def isMnemonic : List Char → Bool
  | [] => false
  | c :: cs => c.isAlpha && cs.all isAlnum

/-- A label: a letter or an underscore, and letters, digits and underscores behind it. -/
def isLabelName : List Char → Bool
  | [] => false
  | c :: cs => isLabelStart c && cs.all isLabelChar

theorem isAlpha_range {c : Char} (h : c.isAlpha = true) : 65 ≤ c.toNat ∧ c.toNat ≤ 122 := by
  have hcase : (c.isUpper || c.isLower) = true := h
  rcases Bool.or_eq_true_iff.1 hcase with hupper | hlower
  · have hrange : c.val ≥ 65 ∧ c.val ≤ 90 := of_decide_eq_true hupper
    simp only [ge_iff_le, UInt32.le_iff_toNat_le] at hrange
    exact ⟨hrange.1, Nat.le_trans hrange.2 (by decide)⟩
  · have hrange : (decide (c.val ≥ 97) && decide (c.val ≤ 122)) = true := hlower
    simp only [Bool.and_eq_true, decide_eq_true_eq, ge_iff_le, UInt32.le_iff_toNat_le] at hrange
    exact ⟨Nat.le_trans (by decide) hrange.1, hrange.2⟩

theorem isDigit_range {c : Char} (h : c.isDigit = true) : 48 ≤ c.toNat ∧ c.toNat ≤ 57 := by
  have hrange : (decide (c.val ≥ 48) && decide (c.val ≤ 57)) = true := h
  simp only [Bool.and_eq_true, decide_eq_true_eq, ge_iff_le, UInt32.le_iff_toNat_le] at hrange
  exact hrange

theorem isAtomChar_range {c : Char} (h : isAtomChar c = true) :
    45 ≤ c.toNat ∧ c.toNat ≤ 122 := by
  simp only [isAtomChar, isAlnum, Bool.or_eq_true, beq_iff_eq] at h
  rcases h with ((((h | h) | rfl) | rfl) | rfl) | rfl
  · have hrange := isAlpha_range h
    omega
  · have hrange := isDigit_range h
    omega
  all_goals decide

theorem isAlnum_of_isAlpha {c : Char} (h : c.isAlpha = true) : isAlnum c = true := by
  simp [isAlnum, h]

theorem isAtomChar_of_isAlnum {c : Char} (h : isAlnum c = true) : isAtomChar c = true := by
  simp [isAtomChar, h]

theorem not_blank_of_isAtomChar {c : Char} (h : isAtomChar c = true) : isBlank c = false :=
  isBlank_eq_false_of_range (isAtomChar_range h)

theorem not_blank_of_isLabelChar {c : Char} (h : isLabelChar c = true) : isBlank c = false := by
  apply not_blank_of_isAtomChar
  simp only [isLabelChar, Bool.or_eq_true, beq_iff_eq] at h
  rcases h with h | rfl
  · exact isAtomChar_of_isAlnum h
  · decide

theorem isLabelChar_of_isLabelName {cs : List Char} (h : isLabelName cs = true) :
    ∀ c ∈ cs, isLabelChar c = true := by
  cases cs with
  | nil => cases h
  | cons c cs =>
      simp only [isLabelName, Bool.and_eq_true, List.all_eq_true] at h
      intro d hd
      rcases List.mem_cons.1 hd with rfl | hd
      · have hstart := h.1
        simp only [isLabelStart, Bool.or_eq_true] at hstart
        rcases hstart with hstart | hstart
        · simp [isLabelChar, isAlnum_of_isAlpha hstart]
        · simp [isLabelChar, hstart]
      · exact h.2 d hd

theorem isAlnum_of_isMnemonic {cs : List Char} (h : isMnemonic cs = true) :
    ∀ c ∈ cs, isAlnum c = true := by
  cases cs with
  | nil => cases h
  | cons c cs =>
      simp only [isMnemonic, Bool.and_eq_true, List.all_eq_true] at h
      intro d hd
      rcases List.mem_cons.1 hd with rfl | hd
      · exact isAlnum_of_isAlpha h.1
      · exact h.2 d hd

theorem ne_nil_of_isMnemonic {cs : List Char} (h : isMnemonic cs = true) :
    ∃ c rest, cs = c :: rest ∧ c.isAlpha = true ∧ ∀ d ∈ rest, isAlnum d = true := by
  cases cs with
  | nil => cases h
  | cons c rest =>
      simp only [isMnemonic, Bool.and_eq_true, List.all_eq_true] at h
      exact ⟨c, rest, rfl, h.1, h.2⟩

/-! ## Words -/

/-- The word that a text starts with: all up to the first blank. -/
def firstWord (cs : List Char) : List Char := cs.takeWhile fun c => !isBlank c

theorem firstWord_append {run rest : List Char} (hrun : ∀ c ∈ run, isAtomChar c = true)
    (hrest : ∀ c ∈ rest.head?, isBlank c = true) : firstWord (run ++ rest) = run := by
  apply takeWhile_append_of_stopsAt
  · intro c hc
    simp [not_blank_of_isAtomChar (hrun c hc)]
  · intro c hc
    simp [hrest c hc]

theorem firstWord_append_dropWhile (cs : List Char) :
    firstWord cs ++ cs.dropWhile (fun c => !isBlank c) = cs :=
  List.takeWhile_append_dropWhile

/-- What follows the first word is blank. -/
theorem blank_behind_firstWord (cs : List Char) :
    ∀ c ∈ (cs.dropWhile fun c => !isBlank c).head?, isBlank c = true := by
  intro c hc
  simpa using stopsAt_dropWhile (fun c => !isBlank c) cs c hc

/-! ## Operands -/

theorem operandsOf_nil : operandsOf [] = ([], []) := by
  unfold operandsOf
  rfl

theorem operandsOf_cons_of_not_gap {c : Char} {cs : List Char} (h : isGap c = false) :
    operandsOf (c :: cs) = ([], c :: cs) := by
  unfold operandsOf
  simp [h]

theorem operandsOf_cons_of_some {c : Char} {cs operand rest : List Char} (hc : isGap c = true)
    (h : splitOperand? (cs.dropWhile isGap) = some (operand, rest)) :
    operandsOf (c :: cs) = (operand :: (operandsOf rest).1, (operandsOf rest).2) := by
  rw [operandsOf.eq_def]
  simp only [hc, ↓reduceIte]
  split
  · rename_i hs; rw [h] at hs; cases hs
  · rename_i operand' rest' hs
    rw [h, Option.some.injEq, Prod.mk.injEq] at hs
    obtain ⟨rfl, rfl⟩ := hs
    rfl

theorem operandsOf_cons_of_none {c : Char} {cs : List Char}
    (h : splitOperand? (cs.dropWhile isGap) = none) : operandsOf (c :: cs) = ([], c :: cs) := by
  rw [operandsOf.eq_def]
  split
  · rename_i heq
    cases heq
  · rename_i heq
    cases heq
    split
    · split
      · rfl
      · rename_i hs
        rw [h] at hs
        cases hs
    · rfl

/-- Operands are read only behind a gap. -/
theorem gap_of_operands {cs : List Char} (h : (operandsOf cs).1 ≠ []) :
    ∃ c rest, cs = c :: rest ∧ isGap c = true := by
  cases cs with
  | nil => rw [operandsOf_nil] at h; exact absurd rfl h
  | cons c rest =>
      refine ⟨c, rest, rfl, ?_⟩
      cases hc : isGap c with
      | true => rfl
      | false => rw [operandsOf_cons_of_not_gap hc] at h; exact absurd rfl h

theorem withOperands?_eq_some {head : Head} {cs : List Char} {line : Line}
    (h : withOperands? head cs = some line) :
    ∃ comment, ending? (operandsOf cs).2 = some comment ∧
      line = ⟨head, (operandsOf cs).1.map String.ofList, nonempty? comment⟩ := by
  obtain ⟨comment, hend, hline⟩ := Option.map_eq_some_iff.1 h
  exact ⟨comment, hend, hline.symm⟩

/-! ## Labels -/

theorem splitLabel?_eq_some {cs rest : List Char} {name : String}
    (h : splitLabel? cs = some (name, rest)) :
    ∃ chars, isLabelName chars = true ∧ name = String.ofList chars ∧ cs = chars ++ ':' :: rest := by
  cases cs with
  | nil => cases h
  | cons c cs =>
      simp only [splitLabel?] at h
      split at h
      · rename_i hc
        split at h
        · rename_i rest' hrest
          simp only [Option.some.injEq, Prod.mk.injEq] at h
          obtain ⟨rfl, rfl⟩ := h
          refine ⟨c :: cs.takeWhile isLabelChar, ?_, rfl, ?_⟩
          · simp [isLabelName, hc]
          · rw [List.cons_append, ← hrest, List.takeWhile_append_dropWhile]
        · cases h
      · cases h

/-- The colon of a label stands in the first word, and a mnemonic has none. -/
theorem splitLabel?_eq_none_of_isMnemonic {cs : List Char} (h : isMnemonic (firstWord cs) = true) :
    splitLabel? cs = none := by
  cases hsplit : splitLabel? cs with
  | none => rfl
  | some found =>
      obtain ⟨name, rest⟩ := found
      obtain ⟨chars, hchars, -, rfl⟩ := splitLabel?_eq_some hsplit
      have hword : ':' ∈ firstWord (chars ++ ':' :: rest) := by
        have hrun : ∀ c ∈ chars, (!isBlank c) = true := by
          intro c hc
          simp [not_blank_of_isLabelChar (isLabelChar_of_isLabelName hchars c hc)]
        rw [firstWord, List.takeWhile_append_of_pos hrun]
        simp [show isBlank ':' = false by decide]
      have hcolon : isAlnum ':' = true := isAlnum_of_isMnemonic h _ hword
      exact absurd hcolon (by decide)

/-! ## Calls -/

theorem not_blank_of_foldsTo {letter c : Char} (hlower : isAlnum letter = true)
    (hupper : isAlnum letter.toUpper = true) (h : foldsTo letter c = true) : isBlank c = false := by
  simp only [foldsTo, Bool.or_eq_true, Bool.and_eq_true, beq_iff_eq] at h
  rcases h with ((rfl | rfl) | ⟨-, rfl | rfl⟩) | ⟨-, rfl⟩
  · exact not_blank_of_isAtomChar (isAtomChar_of_isAlnum hlower)
  · exact not_blank_of_isAtomChar (isAtomChar_of_isAlnum hupper)
  all_goals decide

theorem not_blank_of_splitWord? {word cs found rest : List Char}
    (hword : word.all (fun w => isAlnum w && isAlnum w.toUpper) = true)
    (h : splitWord? word cs = some (found, rest)) : ∀ c ∈ found, isBlank c = false := by
  induction word generalizing cs found with
  | nil =>
      simp only [splitWord?, Option.some.injEq, Prod.mk.injEq] at h
      rw [← h.1]
      intro c hc
      cases hc
  | cons w ws ih =>
      cases cs with
      | nil => cases h
      | cons c cs =>
          simp only [splitWord?] at h
          split at h
          · rename_i hfold
            obtain ⟨⟨found', rest'⟩, hfound, heq⟩ := Option.map_eq_some_iff.1 h
            simp only [Prod.mk.injEq] at heq
            obtain ⟨rfl, rfl⟩ := heq
            rw [List.all_cons, Bool.and_eq_true, Bool.and_eq_true] at hword
            intro d hd
            rcases List.mem_cons.1 hd with rfl | hd
            · exact not_blank_of_foldsTo hword.1.1 hword.1.2 hfold
            · exact ih hword.2 hfound d hd
          · cases h

theorem not_blank_of_splitKeyword? {cs keyword rest : List Char}
    (h : Call.splitKeyword? cs = some (keyword, rest)) : ∀ c ∈ keyword, isBlank c = false := by
  unfold Call.splitKeyword? at h
  split at h
  · rename_i found hfound
    rw [h] at hfound
    exact not_blank_of_splitWord? (by decide) hfound
  · exact not_blank_of_splitWord? (by decide) h

theorem splitKeyword?_of_split? {cs rest : List Char} {call : Call}
    (h : Call.split? cs = some (call, rest)) :
    ∃ tail, Call.splitKeyword? cs = some (call.keyword, tail) := by
  unfold Call.split? at h
  split at h
  · cases h
  · rename_i keyword tail hkey
    obtain ⟨⟨argument, rest'⟩, -, heq⟩ := Option.map_eq_some_iff.1 h
    simp only [Prod.mk.injEq] at heq
    rw [← heq.1]
    exact ⟨tail, hkey⟩

/-- The parenthesis of a call stands in the first word. -/
theorem split?_eq_none_of_not_mem {cs : List Char} (h : '(' ∉ firstWord cs) :
    Call.split? cs = none := by
  cases hsplit : Call.split? cs with
  | none => rfl
  | some found =>
      obtain ⟨call, rest⟩ := found
      obtain ⟨tail, hkey⟩ := splitKeyword?_of_split? hsplit
      have hword : '(' ∈ firstWord cs := by
        have hrun : ∀ c ∈ call.keyword, (!isBlank c) = true := by
          intro c hc
          simp [not_blank_of_splitKeyword? hkey c hc]
        rw [← Call.split?_append hsplit, Call.chars, List.append_assoc, List.append_assoc, firstWord,
          List.takeWhile_append_of_pos hrun]
        simp [show isBlank '(' = false by decide]
      exact absurd hword h

/-- A mnemonic has no parenthesis. -/
theorem split?_eq_none_of_isMnemonic {cs : List Char} (h : isMnemonic (firstWord cs) = true) :
    Call.split? cs = none := by
  apply split?_eq_none_of_not_mem
  intro hword
  have hparen : isAlnum '(' = true := isAlnum_of_isMnemonic h _ hword
  exact absurd hparen (by decide)

/-! ## Mnemonics -/

/-- A mnemonic that stands first may be read as an operand. -/
theorem splitOperand?_of_isMnemonic {cs : List Char} (h : isMnemonic (firstWord cs) = true) :
    splitOperand? cs = some (firstWord cs, cs.dropWhile fun c => !isBlank c) := by
  obtain ⟨c, rest, hword, hc, hrest⟩ := ne_nil_of_isMnemonic h
  have hrun : ∀ d ∈ firstWord cs, isAtomChar d = true := fun d hd =>
    isAtomChar_of_isAlnum (isAlnum_of_isMnemonic h d hd)
  have hstop : StopsAt isAtomChar (cs.dropWhile fun c => !isBlank c) :=
    stopsAt_of_blank (fun _ => not_blank_of_isAtomChar) (blank_behind_firstWord cs)
  have hcs := firstWord_append_dropWhile cs
  have hatom : splitAtom? cs = splitRun? cs := by
    unfold splitAtom?
    split
    · rename_i cs'
      rw [hword, List.cons_append, List.cons.injEq] at hcs
      rw [hcs.1] at hc
      exact absurd hc (by decide)
    · rfl
  have htake : cs.takeWhile isAtomChar = firstWord cs := by
    conv => lhs; rw [← hcs]
    exact takeWhile_append_of_stopsAt hrun hstop
  have hdrop : cs.dropWhile isAtomChar = cs.dropWhile fun c => !isBlank c := by
    conv => lhs; rw [← hcs]
    exact dropWhile_append_of_stopsAt hrun hstop
  rw [splitOperand?, split?_eq_none_of_isMnemonic h]
  simp only [hatom, splitRun?, htake, hdrop, hword]

/-- A mnemonic that stands first is split off as one. -/
theorem splitOpcode_of_isMnemonic {cs : List Char} (h : isMnemonic (firstWord cs) = true) :
    splitOpcode cs =
      (some (String.ofList (firstWord cs)), cs.dropWhile fun c => !isBlank c) := by
  obtain ⟨c, rest, hword, hc, hrest⟩ := ne_nil_of_isMnemonic h
  have hstop : StopsAt isAlnum (cs.dropWhile fun c => !isBlank c) :=
    stopsAt_of_blank (fun _ hd => not_blank_of_isAtomChar (isAtomChar_of_isAlnum hd))
      (blank_behind_firstWord cs)
  have hcs := firstWord_append_dropWhile cs
  rw [hword] at hcs ⊢
  conv => lhs; rw [← hcs, List.cons_append]
  simp only [splitOpcode, hc, ↓reduceIte, takeWhile_append_of_stopsAt hrest hstop,
    dropWhile_append_of_stopsAt hrest hstop]

theorem code?_eq (label : Option String) (cs : List Char) :
    code? label cs = withOperands? (.code label (splitOpcode cs).1) (splitOpcode cs).2 := rfl

/-- Operands behind a mnemonic: the mnemonic is the first word. -/
theorem code?_eq_some_of_operands {label : Option String} {cs : List Char} {line : Line}
    (hcs : StopsAt isBlank cs) (h : code? label cs = some line) (hops : line.operands ≠ []) :
    isMnemonic (firstWord cs) = true ∧
      line.head = .code label (some (String.ofList (firstWord cs))) := by
  rw [code?_eq] at h
  obtain ⟨comment, -, rfl⟩ := withOperands?_eq_some h
  have hgap : ∃ c rest, (splitOpcode cs).2 = c :: rest ∧ isGap c = true := by
    apply gap_of_operands
    intro hnil
    exact hops (by simp [hnil])
  obtain ⟨g, rest, hrest, hg⟩ := hgap
  have hblank : isBlank g = true := isBlank_of_isGap hg
  cases cs with
  | nil => simp [splitOpcode] at hrest
  | cons c cs =>
      cases hc : c.isAlpha with
      | false =>
          simp only [splitOpcode, hc, Bool.false_eq_true, ↓reduceIte, List.cons.injEq] at hrest
          have hfirst : isBlank c = false := hcs c rfl
          rw [hrest.1, hblank] at hfirst
          cases hfirst
      | true =>
          simp only [splitOpcode, hc, ↓reduceIte] at hrest ⊢
          have hsplit : c :: cs = (c :: cs.takeWhile isAlnum) ++ g :: rest := by
            rw [List.cons_append, ← hrest, List.takeWhile_append_dropWhile]
          have hrun : ∀ d ∈ c :: cs.takeWhile isAlnum, isAtomChar d = true := by
            intro d hd
            rcases List.mem_cons.1 hd with rfl | hd
            · exact isAtomChar_of_isAlnum (isAlnum_of_isAlpha hc)
            · exact isAtomChar_of_isAlnum (List.all_eq_true.1 List.all_takeWhile d hd)
          have hword : firstWord (c :: cs) = c :: cs.takeWhile isAlnum := by
            rw [hsplit]
            apply firstWord_append hrun
            intro d hd
            cases hd
            exact hblank
          rw [hword]
          simp [isMnemonic, hc]

theorem ending?_eq_none_of_isAlnum {cs rest : List Char} {c : Char} (hcs : dropBlanks cs = c :: rest)
    (hc : isAlnum c = true) : ending? cs = none := by
  have hmark : isCommentMark c = false := by
    cases hmark : isCommentMark c with
    | false => rfl
    | true =>
        simp only [isCommentMark, Bool.or_eq_true, beq_iff_eq] at hmark
        rcases hmark with rfl | rfl
        · exact absurd hc (by decide)
        · exact absurd hc (by decide)
  have hend : isEnd cs = false := by
    unfold isEnd
    rw [hcs]
    split
    · rename_i h; cases h
    · rename_i h; cases h; exact absurd hc (by decide)
    · rename_i h; cases h; exact absurd hc (by decide)
    · rfl
  unfold ending?
  simp [hcs, hmark, hend]

/-- Operands are read without a mnemonic only where the first word is none. -/
theorem bare?_of_code?_eq_none {label : Option String} {cs : List Char} {line : Line}
    (hcode : code? label (dropBlanks cs) = none) (h : bare? label cs = some line) :
    isMnemonic (firstWord (dropBlanks cs)) = false ∧ line.head = .code label none := by
  unfold bare? at h
  split at h
  · cases h
  · rename_i blank hblank
    obtain ⟨comment, hend, rfl⟩ := withOperands?_eq_some h
    refine ⟨?_, rfl⟩
    cases hword : isMnemonic (firstWord (dropBlanks cs)) with
    | false => rfl
    | true =>
        obtain ⟨c, rest, hfirst, hc, -⟩ := ne_nil_of_isMnemonic hword
        have hcs := firstWord_append_dropWhile (dropBlanks cs)
        rw [hfirst, List.cons_append] at hcs
        have hnotBlank : isBlank c = false := not_blank_of_dropBlanks hcs.symm
        have hisBlank : isBlank blank = true :=
          List.all_eq_true.1 List.all_takeWhile blank (List.mem_of_getLast? hblank)
        cases hgap : isGap blank with
        | false =>
            have hdrop : dropBlanks (blank :: dropBlanks cs) = dropBlanks cs := by
              rw [dropBlanks, List.dropWhile_cons_of_pos hisBlank, ← hcs]
              exact dropBlanks_cons_of_not_blank hnotBlank
            rw [operandsOf_cons_of_not_gap hgap,
              ending?_eq_none_of_isAlnum (hdrop.trans hcs.symm) (isAlnum_of_isAlpha hc)] at hend
            cases hend
        | true =>
            have hsplit : splitOperand? ((dropBlanks cs).dropWhile isGap) =
                some (firstWord (dropBlanks cs), (dropBlanks cs).dropWhile fun c => !isBlank c) := by
              have hdrop : (dropBlanks cs).dropWhile isGap = dropBlanks cs := by
                rw [← hcs]
                exact List.dropWhile_cons_of_neg (by simp [not_gap_of_not_blank hnotBlank])
              rw [hdrop]
              exact splitOperand?_of_isMnemonic hword
            rw [operandsOf_cons_of_some hgap hsplit] at hend
            rw [code?_eq, splitOpcode_of_isMnemonic hword, withOperands?] at hcode
            simp [hend] at hcode

/-! ## Lines without a mnemonic -/

/-- Behind the label of the line stands a word that is no mnemonic. -/
def lacksMnemonic (cs : List Char) : Bool :=
  match splitLabel? cs with
  | some (_, rest) => !isMnemonic (firstWord (dropBlanks rest))
  | none => false

theorem directive?_head {cs : List Char} {line : Line} (h : directive? cs = some line) :
    ∃ word, line.head = .directive word := by
  unfold directive? at h
  split at h
  · cases h
  · rename_i word rest hword
    obtain ⟨comment, -, rfl⟩ := withOperands?_eq_some h
    exact ⟨_, rfl⟩

/-- How a line that starts with no blank is read as code: behind a label with a mnemonic, behind a
label without one, or without a label. -/
theorem ofChars?_code {cs : List Char} {line : Line} {label opcode : Option String}
    (hcs : StopsAt isBlank cs) (h : ofChars? cs = some line)
    (hhead : line.head = .code label opcode) :
    (∃ name rest, splitLabel? cs = some (name, rest) ∧
      (code? (some name) (dropBlanks rest) = some line ∨
        code? (some name) (dropBlanks rest) = none ∧ bare? (some name) rest = some line)) ∨
      code? none cs = some line := by
  have hstart : dropBlanks cs = cs := by
    cases cs with
    | nil => rfl
    | cons c cs => exact dropBlanks_cons_of_not_blank (hcs c rfl)
  simp only [ofChars?, hstart, Option.or_eq_some_iff] at h
  rcases h with ((h | ⟨-, h⟩) | ⟨-, h⟩) | ⟨-, h⟩
  · obtain ⟨word, hword⟩ := directive?_head h
    rw [hhead] at hword
    cases hword
  · unfold labelled? at h
    split at h
    · cases h
    · rename_i name rest hsplit
      exact Or.inl ⟨name, rest, hsplit, Option.or_eq_some_iff.1 h⟩
  · exact Or.inr h
  · unfold bare? at h
    split at h
    · cases h
    · rename_i blank hblank
      cases cs with
      | nil => cases hblank
      | cons c cs =>
          have hc : isBlank c = false := hcs c rfl
          simp [hc] at hblank

/-- A code line with operands has no mnemonic exactly when a word that is none stands behind its
label. -/
theorem opcode_eq_none_iff {cs : List Char} {line : Line} {label opcode : Option String}
    (hcs : StopsAt isBlank cs) (h : ofChars? cs = some line)
    (hhead : line.head = .code label opcode) (hops : line.operands ≠ []) :
    opcode = none ↔ lacksMnemonic cs = true := by
  rcases ofChars?_code hcs h hhead with ⟨name, rest, hsplit, hcode | ⟨hcode, hbare⟩⟩ | hcode
  · obtain ⟨hword, hline⟩ := code?_eq_some_of_operands (stopsAt_dropBlanks rest) hcode hops
    rw [hhead, Head.code.injEq] at hline
    simp [hline.2, lacksMnemonic, hsplit, hword]
  · obtain ⟨hword, hline⟩ := bare?_of_code?_eq_none hcode hbare
    rw [hhead, Head.code.injEq] at hline
    simp [hline.2, lacksMnemonic, hsplit, hword]
  · obtain ⟨hword, hline⟩ := code?_eq_some_of_operands hcs hcode hops
    rw [hhead, Head.code.injEq] at hline
    simp [hline.2, lacksMnemonic, splitLabel?_eq_none_of_isMnemonic hword]

/-- The label of a code line is the name of a label. -/
theorem isLabelName_of_ofChars? {cs : List Char} {line : Line} {name : String}
    {opcode : Option String} (hcs : StopsAt isBlank cs) (h : ofChars? cs = some line)
    (hhead : line.head = .code (some name) opcode) : isLabelName name.toList = true := by
  have hnamed : ∀ {label : Option String} {cs : List Char}, code? label cs = some line →
      label = some name := by
    intro label cs hcode
    rw [code?_eq] at hcode
    obtain ⟨comment, -, rfl⟩ := withOperands?_eq_some hcode
    exact (Head.code.inj hhead).1
  rcases ofChars?_code hcs h hhead with ⟨name', rest, hsplit, hcode | ⟨hnone, hbare⟩⟩ | hcode
  · obtain ⟨chars, hchars, rfl, -⟩ := splitLabel?_eq_some hsplit
    cases hnamed hcode
    rwa [String.toList_ofList]
  · obtain ⟨chars, hchars, rfl, -⟩ := splitLabel?_eq_some hsplit
    obtain ⟨-, hline⟩ := bare?_of_code?_eq_none hnone hbare
    rw [hhead, Head.code.injEq, Option.some.injEq] at hline
    rwa [hline.1, String.toList_ofList]
  · cases hnamed hcode

end Line

end ChipAsm
