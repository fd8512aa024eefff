import Mathlib.Data.List.Forall2
import ChipAsm.Proofs.Source

/-!
# Operands as they are spelled

An operand of a source is an atom or a call.  An atom is a run of letters, digits and a few marks,
behind a dollar sign or not.  A call starts with a keyword in any spelling.  The operands that a reader
splits off are of one of the two kinds (`isToken_of_mem_operands`).

Behind a word stands a boundary, or nothing.  A token in front of one is split off as it is
(`splitOperand?_of_isToken`), so tokens with a space in front of each are read back one by one
(`operandsOf_tokens`).
-/

namespace ChipAsm

open ChipAsm.Text ChipAsm.Token

namespace Text

/-! ## Lower case of ASCII -/

theorem lowerAt_of_ascii {c : Char} (h : c.toNat < 128) (before after : List Char) :
    lowerAt before c after = [c.toLower] := by
  have hsigma : c ≠ 'Σ' := by
    rintro rfl
    exact absurd h (by decide)
  have hdotted : c ≠ 'İ' := by
    rintro rfl
    exact absurd h (by decide)
  simp [lowerAt, hsigma, hdotted, lowerChar, h]

theorem lowerAfter_of_ascii {cs : List Char} (h : ∀ c ∈ cs, c.toNat < 128) :
    ∀ before, lowerAfter before cs = cs.map Char.toLower := by
  induction cs with
  | nil => exact fun _ => rfl
  | cons c cs ih =>
      intro before
      rw [lowerAfter, lowerAt_of_ascii (h c (List.mem_cons_self ..)),
        ih fun d hd => h d (List.mem_cons_of_mem _ hd), List.map_cons, List.singleton_append]

theorem lowerChars_of_ascii {cs : List Char} (h : ∀ c ∈ cs, c.toNat < 128) :
    lowerChars cs = cs.map Char.toLower :=
  lowerAfter_of_ascii h []

end Text

namespace Line

/-- What holds of the characters with small numbers. -/
theorem of_forall_ofNat (bound : Nat) {P : Char → Prop} (h : ∀ n < bound, P (Char.ofNat n))
    {c : Char} (hc : c.toNat < bound) : P c := by
  have hself := h c.toNat hc
  rwa [Char.ofNat_toNat] at hself

/-! ## Atoms -/

/-- An operand that is no call. -/
def isAtom : List Char → Bool
  | '$' :: cs => !cs.isEmpty && cs.all isAtomChar
  | cs => !cs.isEmpty && cs.all isAtomChar

theorem isAtom_of_forall {cs : List Char} (hne : cs ≠ []) (h : ∀ c ∈ cs, isAtomChar c = true) :
    isAtom cs = true := by
  unfold isAtom
  split
  · rename_i rest
    have hdollar : isAtomChar '$' = true := h '$' (List.mem_cons_self ..)
    exact absurd hdollar (by decide)
  · simpa [hne] using h

/-- An atom is a run of operand characters, behind a dollar sign or not. -/
theorem isAtom_cases {cs : List Char} (h : isAtom cs = true) :
    ∃ run, run ≠ [] ∧ (∀ c ∈ run, isAtomChar c = true) ∧ (cs = '$' :: run ∨ cs = run) := by
  unfold isAtom at h
  split at h
  · rename_i run
    simp only [Bool.and_eq_true, Bool.not_eq_true', List.isEmpty_eq_false_iff,
      List.all_eq_true] at h
    exact ⟨run, h.1, h.2, .inl rfl⟩
  · simp only [Bool.and_eq_true, Bool.not_eq_true', List.isEmpty_eq_false_iff,
      List.all_eq_true] at h
    exact ⟨cs, h.1, h.2, .inr rfl⟩

theorem mem_isAtom {cs : List Char} (h : isAtom cs = true) {c : Char} (hc : c ∈ cs) :
    c = '$' ∨ isAtomChar c = true := by
  obtain ⟨run, -, hrun, rfl | rfl⟩ := isAtom_cases h
  · rcases List.mem_cons.1 hc with rfl | hc
    · exact .inl rfl
    · exact .inr (hrun c hc)
  · exact .inr (hrun c hc)

theorem not_blank_of_isAtom {cs : List Char} (h : isAtom cs = true) {c : Char} (hc : c ∈ cs) :
    isBlank c = false := by
  rcases mem_isAtom h hc with rfl | hc
  · decide
  · exact not_blank_of_isAtomChar hc

theorem splitRun?_eq_some {cs run rest : List Char} (h : splitRun? cs = some (run, rest)) :
    run ≠ [] ∧ (∀ c ∈ run, isAtomChar c = true) := by
  unfold splitRun? at h
  split at h
  · cases h
  · rename_i c run' hrun
    simp only [Option.some.injEq, Prod.mk.injEq] at h
    rw [← h.1]
    refine ⟨List.cons_ne_nil _ _, fun d hd => ?_⟩
    rw [← hrun] at hd
    exact List.all_eq_true.1 List.all_takeWhile d hd

theorem isAtom_of_splitAtom? {cs atom rest : List Char} (h : splitAtom? cs = some (atom, rest)) :
    isAtom atom = true := by
  unfold splitAtom? at h
  split at h
  · obtain ⟨⟨run, rest'⟩, hrun, heq⟩ := Option.map_eq_some_iff.1 h
    simp only [Prod.mk.injEq] at heq
    obtain ⟨hne, hchars⟩ := splitRun?_eq_some hrun
    rw [← heq.1]
    simpa [isAtom, hne] using hchars
  · obtain ⟨hne, hchars⟩ := splitRun?_eq_some h
    exact isAtom_of_forall hne hchars

theorem splitRun?_append {run rest : List Char} (hne : run ≠ [])
    (hrun : ∀ c ∈ run, isAtomChar c = true) (hrest : StopsAt isAtomChar rest) :
    splitRun? (run ++ rest) = some (run, rest) := by
  rw [splitRun?, takeWhile_append_of_stopsAt hrun hrest, dropWhile_append_of_stopsAt hrun hrest]
  cases run with
  | nil => exact absurd rfl hne
  | cons c run => rfl

theorem splitAtom?_of_isAtom {cs rest : List Char} (h : isAtom cs = true)
    (hrest : StopsAt isAtomChar rest) : splitAtom? (cs ++ rest) = some (cs, rest) := by
  obtain ⟨run, hne, hrun, rfl | rfl⟩ := isAtom_cases h
  · simp [splitAtom?, splitRun?_append hne hrun hrest]
  · unfold splitAtom?
    split
    · rename_i heq
      cases cs with
      | nil => exact absurd rfl hne
      | cons c cs =>
          cases heq
          exact absurd (hrun '$' (List.mem_cons_self ..)) (by decide)
    · exact splitRun?_append hne hrun hrest

/-! ## Words -/

/-- The text spells the word when case is disregarded. -/
def Spells (word text : List Char) : Prop := List.Forall₂ (fun w c => foldsTo w c = true) word text

instance (word text : List Char) : Decidable (Spells word text) :=
  inferInstanceAs (Decidable (List.Forall₂ _ word text))

/-- The small ASCII letter that a letter of a keyword stands for. -/
def plainLetter (c : Char) : Char :=
  if c = 'İ' ∨ c = 'ı' then 'i' else if c = 'ſ' then 's' else c.toLower

theorem plainLetter_of_foldsTo {letter c : Char} (hletter : 97 ≤ letter.toNat ∧ letter.toNat < 123)
    (h : foldsTo letter c = true) : plainLetter c = letter := by
  have hself := of_forall_ofNat 123
    (P := fun w => 97 ≤ w.toNat → plainLetter w = w ∧ plainLetter w.toUpper = w) (by decide) hletter.2
  simp only [foldsTo, Bool.or_eq_true, Bool.and_eq_true, beq_iff_eq] at h
  rcases h with ((rfl | rfl) | ⟨rfl, rfl | rfl⟩) | ⟨rfl, rfl⟩
  · exact (hself hletter.1).1
  · exact (hself hletter.1).2
  all_goals decide

theorem splitWord?_of_spells {word text : List Char} (h : Spells word text) (rest : List Char) :
    splitWord? word (text ++ rest) = some (text, rest) := by
  induction h with
  | nil => rfl
  | cons hc _ ih => rw [List.cons_append, splitWord?, if_pos hc, ih, Option.map_some]

theorem spells_of_splitWord? {word cs text rest : List Char}
    (h : splitWord? word cs = some (text, rest)) : Spells word text := by
  induction word generalizing cs text with
  | nil =>
      cases h
      exact .nil
  | cons w ws ih =>
      cases cs with
      | nil => cases h
      | cons c cs =>
          rw [splitWord?] at h
          split at h
          · rename_i hc
            obtain ⟨⟨found, rest'⟩, hfound, heq⟩ := Option.map_eq_some_iff.1 h
            cases heq
            exact .cons hc (ih hfound)
          · cases h

theorem Spells.exists_foldsTo {word text : List Char} (h : Spells word text) :
    ∀ c ∈ text, ∃ w ∈ word, foldsTo w c = true := by
  induction h with
  | nil => simp
  | cons hc _ ih =>
      rw [List.forall_mem_cons]
      refine ⟨⟨_, List.mem_cons_self .., hc⟩, fun c hmem => ?_⟩
      obtain ⟨w, hw, hfold⟩ := ih c hmem
      exact ⟨w, List.mem_cons_of_mem _ hw, hfold⟩

/-! ## Calls -/

theorem foldsTo_of_splitWord? {w : Char} {ws cs found rest : List Char}
    (h : splitWord? (w :: ws) cs = some (found, rest)) :
    ∃ c more, found = c :: more ∧ foldsTo w c = true := by
  cases cs with
  | nil => cases h
  | cons c cs =>
      simp only [splitWord?] at h
      split at h
      · rename_i hfold
        obtain ⟨⟨found', rest'⟩, -, heq⟩ := Option.map_eq_some_iff.1 h
        simp only [Prod.mk.injEq] at heq
        exact ⟨c, found', heq.1.symm, hfold⟩
      · cases h

/-- A letter that a keyword starts with, in any spelling. -/
def isKeywordStart (c : Char) : Bool := foldsTo 'h' c || foldsTo 's' c

theorem isKeywordStart_of_splitKeyword? {cs keyword rest : List Char}
    (h : Call.splitKeyword? cs = some (keyword, rest)) :
    ∃ c more, keyword = c :: more ∧ isKeywordStart c = true := by
  unfold Call.splitKeyword? at h
  split at h
  · rename_i found hfound
    rw [h] at hfound
    obtain ⟨c, more, hkeyword, hfold⟩ := foldsTo_of_splitWord? hfound
    exact ⟨c, more, hkeyword, by simp [isKeywordStart, hfold]⟩
  · obtain ⟨c, more, hkeyword, hfold⟩ := foldsTo_of_splitWord? h
    exact ⟨c, more, hkeyword, by simp [isKeywordStart, hfold]⟩

theorem isKeywordStart_cases {c : Char} (h : isKeywordStart c = true) :
    isAtomChar c = true ∨ c = 'ſ' := by
  simp only [isKeywordStart, foldsTo, Bool.or_eq_true, Bool.and_eq_true, beq_iff_eq] at h
  rcases h with (((rfl | rfl) | ⟨h, -⟩) | ⟨h, -⟩) | (((rfl | rfl) | ⟨h, -⟩) | ⟨-, rfl⟩)
  · exact .inl (by decide)
  · exact .inl (by decide)
  · exact absurd h (by decide)
  · exact absurd h (by decide)
  · exact .inl (by decide)
  · exact .inl (by decide)
  · exact absurd h (by decide)
  · exact .inr rfl

theorem spells_of_splitKeyword? {cs keyword rest : List Char}
    (h : Call.splitKeyword? cs = some (keyword, rest)) :
    Spells Call.hashWord keyword ∨ Spells Call.packWord keyword := by
  unfold Call.splitKeyword? at h
  split at h
  · rename_i found hfound
    rw [h] at hfound
    exact .inl (spells_of_splitWord? hfound)
  · exact .inr (spells_of_splitWord? h)

theorem splitKeyword?_of_spells {keyword : List Char}
    (h : Spells Call.hashWord keyword ∨ Spells Call.packWord keyword) (rest : List Char) :
    Call.splitKeyword? (keyword ++ rest) = some (keyword, rest) := by
  rw [Call.splitKeyword?]
  rcases h with h | h
  · rw [splitWord?_of_spells h]
  · have hnone : splitWord? Call.hashWord (keyword ++ rest) = none := by
      cases hsplit : splitWord? Call.hashWord (keyword ++ rest) with
      | none => rfl
      | some found =>
          -- The two keywords start with letters that do not stand for each other.
          obtain ⟨c, more, hfound, hhash⟩ := foldsTo_of_splitWord? hsplit
          have htext := splitWord?_append hsplit
          cases h with
          | cons hpack _ =>
              rw [hfound, List.cons_append, List.cons_append, List.cons.injEq] at htext
              rw [← htext.1] at hpack
              have hletter := plainLetter_of_foldsTo (by decide) hpack
              rw [plainLetter_of_foldsTo (by decide) hhash] at hletter
              exact absurd hletter (by decide)
    rw [hnone, splitWord?_of_spells h]

/-- A call is a keyword in any spelling, and a text without quotes. -/
theorem call_of_split? {cs rest : List Char} {call : Call} (h : Call.split? cs = some (call, rest)) :
    (Spells Call.hashWord call.keyword ∨ Spells Call.packWord call.keyword) ∧
      '"' ∉ call.argument := by
  unfold Call.split? at h
  split at h
  · cases h
  · rename_i keyword tail hkey
    obtain ⟨⟨argument, rest'⟩, hargument, heq⟩ := Option.map_eq_some_iff.1 h
    cases heq
    refine ⟨spells_of_splitKeyword? hkey, fun hmem => ?_⟩
    unfold Call.splitArgument? at hargument
    split at hargument
    · split at hargument
      · cases hargument
        have hquote := List.all_eq_true.1 List.all_takeWhile _ hmem
        exact absurd hquote (by decide)
      · cases hargument
    · cases hargument

theorem split?_of_spells {keyword argument : List Char}
    (hkeyword : Spells Call.hashWord keyword ∨ Spells Call.packWord keyword) (hquote : '"' ∉ argument)
    (rest : List Char) :
    Call.split? (Call.chars ⟨keyword, argument⟩ ++ rest) = some (⟨keyword, argument⟩, rest) := by
  have hrun : ∀ c ∈ argument, (c != '"') = true := by
    intro c hc
    simpa using fun heq : c = '"' => hquote (heq ▸ hc)
  have hstop : StopsAt (· != '"') ('"' :: ')' :: rest) := by
    intro c hc
    cases hc
    rfl
  have htext : Call.chars ⟨keyword, argument⟩ ++ rest =
      keyword ++ '(' :: '"' :: (argument ++ '"' :: ')' :: rest) := by simp [Call.chars]
  rw [htext, Call.split?, splitKeyword?_of_spells hkeyword]
  simp only [Call.splitArgument?, takeWhile_append_of_stopsAt hrun hstop,
    dropWhile_append_of_stopsAt hrun hstop, Option.map_some]

/-- A call that is split off is split off again, whatever follows it. -/
theorem split?_chars_append {cs rest : List Char} {call : Call}
    (h : Call.split? cs = some (call, rest)) (rest' : List Char) :
    Call.split? (call.chars ++ rest') = some (call, rest') := by
  obtain ⟨hkeyword, hquote⟩ := call_of_split? h
  exact split?_of_spells hkeyword hquote rest'

/-! ## Boundaries -/

/-- What may stand behind a word: a blank, the mark of a comment, or a backslash. -/
def isBoundary (c : Char) : Bool := isBlank c || isCommentMark c || c == '\\'

/-- A boundary stands at the start of the text, if anything does. -/
def AtBoundary (cs : List Char) : Prop := ∀ c ∈ cs.head?, isBoundary c = true

theorem isBoundary_of_isBlank {c : Char} (h : isBlank c = true) : isBoundary c = true := by
  simp [isBoundary, h]

theorem not_atomChar_of_isBoundary {c : Char} (h : isBoundary c = true) : isAtomChar c = false := by
  simp only [isBoundary, isCommentMark, Bool.or_eq_true, beq_iff_eq] at h
  rcases h with (h | rfl | rfl) | rfl
  · cases hc : isAtomChar c with
    | false => rfl
    | true => rw [not_blank_of_isAtomChar hc] at h; cases h
  all_goals decide

theorem not_boundary_of_isAtomChar {c : Char} (h : isAtomChar c = true) : isBoundary c = false := by
  cases hc : isBoundary c with
  | false => rfl
  | true => rw [not_atomChar_of_isBoundary hc] at h; cases h

theorem not_boundary_of_foldsTo {letter c : Char} (hletter : 97 ≤ letter.toNat ∧ letter.toNat < 123)
    (h : foldsTo letter c = true) : isBoundary c = false := by
  have hself := of_forall_ofNat 123
    (P := fun w => 97 ≤ w.toNat → isBoundary w = false ∧ isBoundary w.toUpper = false) (by decide)
    hletter.2
  simp only [foldsTo, Bool.or_eq_true, Bool.and_eq_true, beq_iff_eq] at h
  rcases h with ((rfl | rfl) | ⟨-, rfl | rfl⟩) | ⟨-, rfl⟩
  · exact (hself hletter.1).1
  · exact (hself hletter.1).2
  all_goals decide

theorem not_boundary_of_spells {word text : List Char}
    (hword : ∀ w ∈ word, 97 ≤ w.toNat ∧ w.toNat < 123) (h : Spells word text) :
    ∀ c ∈ text, isBoundary c = false := by
  intro c hc
  obtain ⟨w, hw, hfold⟩ := h.exists_foldsTo c hc
  exact not_boundary_of_foldsTo (hword w hw) hfold

theorem not_boundary_of_keyword {keyword : List Char}
    (h : Spells Call.hashWord keyword ∨ Spells Call.packWord keyword) :
    ∀ c ∈ keyword, isBoundary c = false := by
  have hall : ([Call.hashWord, Call.packWord].all fun word =>
      word.all fun w => decide (97 ≤ w.toNat ∧ w.toNat < 123)) = true := by decide
  have hletters : ∀ word ∈ [Call.hashWord, Call.packWord], ∀ w ∈ word,
      97 ≤ w.toNat ∧ w.toNat < 123 := fun word hword w hw =>
    of_decide_eq_true (List.all_eq_true.1 (List.all_eq_true.1 hall word hword) w hw)
  rcases h with h | h
  · exact not_boundary_of_spells (hletters _ (by simp)) h
  · exact not_boundary_of_spells (hletters _ (by simp)) h

/-- A mark that is no boundary stands behind no word, if the word goes on only to a boundary. -/
theorem append_ne_of_atBoundary {word left run rest : List Char} {mark : Char}
    (hword : ∀ c ∈ word, isBoundary c = false) (hmark : isBoundary mark = false) (hrun : mark ∉ run)
    (hrest : AtBoundary rest) : word ++ mark :: left ≠ run ++ rest := by
  intro htext
  have hhead : ∀ {c : Char} {more : List Char}, rest = c :: more → isBoundary c = true := by
    rintro c more rfl
    exact hrest c rfl
  rcases List.append_eq_append_iff.1 htext with ⟨more, hsplit, hmore⟩ | ⟨more, hsplit, hmore⟩
  · cases more with
    | nil => exact absurd (hhead hmore.symm) (by simp [hmark])
    | cons c more =>
        obtain ⟨rfl, -⟩ := List.cons.inj hmore
        exact hrun (hsplit ▸ List.mem_append_right _ (List.mem_cons_self ..))
  · cases more with
    | nil => exact absurd (hhead hmore) (by simp [hmark])
    | cons c more =>
        have hc := hword c (hsplit ▸ List.mem_append_right _ (List.mem_cons_self ..))
        exact absurd (hhead hmore) (by simp [hc])

/-- An atom in front of a boundary does not start a call: it has no parenthesis. -/
theorem split?_eq_none_of_isAtom {cs rest : List Char} (h : isAtom cs = true) (hrest : AtBoundary rest) :
    Call.split? (cs ++ rest) = none := by
  cases hsplit : Call.split? (cs ++ rest) with
  | none => rfl
  | some found =>
      have hkeyword := not_boundary_of_keyword (call_of_split? hsplit).1
      have hparen : '(' ∉ cs := by
        intro hmem
        rcases mem_isAtom h hmem with hc | hc
        · exact absurd hc (by decide)
        · exact absurd hc (by decide)
      have htext := Call.split?_append hsplit
      rw [Call.chars, List.append_assoc, List.append_assoc, List.cons_append] at htext
      exact absurd htext (append_ne_of_atBoundary hkeyword (by decide) hparen hrest)

/-! ## Tokens -/

/-- The text is one operand: an atom, or a call. -/
def IsToken (cs : List Char) : Prop :=
  isAtom cs = true ∨ ∃ call, Call.split? cs = some (call, [])

theorem isToken_of_splitOperand? {cs operand rest : List Char}
    (h : splitOperand? cs = some (operand, rest)) : IsToken operand := by
  unfold splitOperand? at h
  split at h
  · rename_i call rest' hcall
    simp only [Option.some.injEq, Prod.mk.injEq] at h
    rw [← h.1]
    have hwhole := split?_chars_append hcall []
    rw [List.append_nil] at hwhole
    exact .inr ⟨call, hwhole⟩
  · exact .inl (isAtom_of_splitAtom? h)

theorem isToken_of_mem_operandsOf (cs : List Char) :
    ∀ operand ∈ (operandsOf cs).1, IsToken operand := by
  fun_induction operandsOf cs with
  | case1 => simp
  | case2 => simp
  | case3 c more hgap operand rest hsplit operands left heq ih =>
      intro other hother
      rcases List.mem_cons.1 hother with rfl | hother
      · exact isToken_of_splitOperand? hsplit
      · rw [heq] at ih
        exact ih other hother
  | case4 => simp

theorem append_of_splitRun? {cs run rest : List Char} (h : splitRun? cs = some (run, rest)) :
    run ++ rest = cs := by
  unfold splitRun? at h
  split at h
  · cases h
  · rename_i c run' hrun
    cases h
    rw [← hrun, List.takeWhile_append_dropWhile]

theorem append_of_splitOperand? {cs operand rest : List Char}
    (h : splitOperand? cs = some (operand, rest)) : operand ++ rest = cs := by
  unfold splitOperand? at h
  split at h
  · rename_i call rest' hcall
    cases h
    exact Call.split?_append hcall
  · unfold splitAtom? at h
    split at h
    · obtain ⟨⟨run, rest'⟩, hrun, heq⟩ := Option.map_eq_some_iff.1 h
      cases heq
      rw [List.cons_append, append_of_splitRun? hrun]
    · exact append_of_splitRun? h

theorem subset_of_mem_operandsOf (cs : List Char) : ∀ operand ∈ (operandsOf cs).1, operand ⊆ cs := by
  fun_induction operandsOf cs with
  | case1 => simp
  | case2 => simp
  | case3 c more hgap operand rest hsplit operands left heq ih =>
      have hmore : operand ++ rest ⊆ c :: more := by
        rw [append_of_splitOperand? hsplit]
        exact List.subset_cons_of_subset _ (List.dropWhile_suffix isGap).subset
      intro other hother
      rcases List.mem_cons.1 hother with rfl | hother
      · exact List.Subset.trans (List.subset_append_left _ _) hmore
      · rw [heq] at ih
        exact List.Subset.trans (ih other hother)
          (List.Subset.trans (List.subset_append_right _ _) hmore)
  | case4 => simp

theorem subset_of_splitOpcode (cs : List Char) : (splitOpcode cs).2 ⊆ cs := by
  cases cs with
  | nil => exact List.Subset.refl _
  | cons c cs =>
      rw [splitOpcode]
      split
      · exact List.subset_cons_of_subset _ (List.dropWhile_suffix isAlnum).subset
      · exact List.Subset.refl _

theorem dropBlanks_subset (cs : List Char) : dropBlanks cs ⊆ cs :=
  (List.dropWhile_suffix isBlank).subset

/-- Every line is a head in front of operands, and what stands behind the head stands in the line. -/
theorem withOperands?_of_ofChars? {cs : List Char} {line : Line} (h : ofChars? cs = some line) :
    ∃ head rest, withOperands? head rest = some line ∧ rest ⊆ cs := by
  have hcode : ∀ {label : Option String} {part : List Char}, part ⊆ cs →
      code? label part = some line → ∃ head rest, withOperands? head rest = some line ∧ rest ⊆ cs :=
    fun hpart hcode => ⟨_, _, hcode, List.Subset.trans (subset_of_splitOpcode _) hpart⟩
  have hbare : ∀ {label : Option String} {part : List Char}, part ⊆ cs →
      bare? label part = some line →
        ∃ head rest, withOperands? head rest = some line ∧ rest ⊆ cs := by
    intro label part hpart hbare
    unfold bare? at hbare
    split at hbare
    · cases hbare
    · rename_i blank hblank
      refine ⟨_, _, hbare, List.cons_subset.2 ⟨hpart ?_, ?_⟩⟩
      · exact (List.takeWhile_prefix isBlank).subset (List.mem_of_getLast? hblank)
      · exact List.Subset.trans (dropBlanks_subset part) hpart
  have hstart := dropBlanks_subset cs
  simp only [ofChars?, Option.or_eq_some_iff] at h
  rcases h with ((h | ⟨-, h⟩) | ⟨-, h⟩) | ⟨-, h⟩
  · unfold directive? at h
    split at h
    · cases h
    · rename_i word rest hword
      obtain ⟨_, -, hsplit⟩ := List.exists_of_findSome?_eq_some hword
      refine ⟨_, rest, h, List.Subset.trans ?_ hstart⟩
      rw [← splitWord?_append hsplit]
      exact List.subset_append_right _ _
  · unfold labelled? at h
    split at h
    · cases h
    · rename_i label rest hlabel
      have hrest : rest ⊆ cs := by
        obtain ⟨chars, -, -, htext⟩ := splitLabel?_eq_some hlabel
        refine List.Subset.trans ?_ hstart
        rw [htext]
        exact List.subset_append_of_subset_right _ (List.subset_cons_self _ _)
      rcases Option.or_eq_some_iff.1 h with h | ⟨-, h⟩
      · exact hcode (List.Subset.trans (dropBlanks_subset rest) hrest) h
      · exact hbare hrest h
  · exact hcode hstart h
  · exact hbare (List.Subset.refl _) h

/-- The operands of a line are tokens. -/
theorem isToken_of_mem_operands {cs : List Char} {line : Line} (h : ofChars? cs = some line) :
    ∀ token ∈ line.operands, IsToken token.toList := by
  obtain ⟨head, rest, hline, -⟩ := withOperands?_of_ofChars? h
  obtain ⟨comment, -, rfl⟩ := withOperands?_eq_some hline
  intro token htoken
  obtain ⟨operand, hoperand, rfl⟩ := List.mem_map.1 htoken
  rw [String.toList_ofList]
  exact isToken_of_mem_operandsOf rest operand hoperand

/-- The operands of a line stand in its text. -/
theorem subset_of_mem_operands {cs : List Char} {line : Line} (h : ofChars? cs = some line) :
    ∀ token ∈ line.operands, token.toList ⊆ cs := by
  obtain ⟨head, rest, hline, hrest⟩ := withOperands?_of_ofChars? h
  obtain ⟨comment, -, rfl⟩ := withOperands?_eq_some hline
  intro token htoken
  obtain ⟨operand, hoperand, rfl⟩ := List.mem_map.1 htoken
  rw [String.toList_ofList]
  exact List.Subset.trans (subset_of_mem_operandsOf rest operand hoperand) hrest

/-- A token starts with an operand character, a dollar sign or the long form of a letter. -/
theorem head_of_isToken {cs : List Char} (h : IsToken cs) :
    ∃ c rest, cs = c :: rest ∧ (isAtomChar c = true ∨ c = '$' ∨ c = 'ſ') := by
  rcases h with hatom | ⟨call, hcall⟩
  · obtain ⟨run, hne, hrun, rfl | rfl⟩ := isAtom_cases hatom
    · exact ⟨_, _, rfl, .inr (.inl rfl)⟩
    · cases cs with
      | nil => exact absurd rfl hne
      | cons c cs => exact ⟨c, cs, rfl, .inl (hrun c (List.mem_cons_self ..))⟩
  · obtain ⟨tail, hkey⟩ := splitKeyword?_of_split? hcall
    obtain ⟨c, more, hkeyword, hstart⟩ := isKeywordStart_of_splitKeyword? hkey
    refine ⟨c, more ++ '(' :: '"' :: call.argument ++ ['"', ')'], ?_, ?_⟩
    · rw [← Call.split?_append hcall, Call.chars, hkeyword]
      simp
    · rcases isKeywordStart_cases hstart with hc | hc
      · exact .inl hc
      · exact .inr (.inr hc)

theorem blank_of_head?_flatMap (tokens : List (List Char)) {rest : List Char}
    (hrest : ∀ c ∈ rest.head?, isBlank c = true) :
    ∀ c ∈ (tokens.flatMap (' ' :: ·) ++ rest).head?, isBlank c = true := by
  cases tokens with
  | nil => exact hrest
  | cons token tokens =>
      intro c hc
      cases hc
      decide

/-- A token in front of a boundary is split off. -/
theorem splitOperand?_of_isToken {cs rest : List Char} (h : IsToken cs) (hrest : AtBoundary rest) :
    splitOperand? (cs ++ rest) = some (cs, rest) := by
  rcases h with hatom | ⟨call, hcall⟩
  · rw [splitOperand?, split?_eq_none_of_isAtom hatom hrest]
    exact splitAtom?_of_isAtom hatom fun c hc => not_atomChar_of_isBoundary (hrest c hc)
  · have hchars := Call.split?_append hcall
    rw [List.append_nil] at hchars
    rw [← hchars, splitOperand?, split?_chars_append hcall rest]

/-- Tokens with a space in front of each are read one by one, up to a text that starts with none. -/
theorem operandsOf_tokens {tokens : List (List Char)} {rest : List Char}
    (h : ∀ token ∈ tokens, IsToken token) (hrest : ∀ c ∈ rest.head?, isBlank c = true)
    (hnone : operandsOf rest = ([], rest)) :
    operandsOf (tokens.flatMap (' ' :: ·) ++ rest) = (tokens, rest) := by
  induction tokens with
  | nil => exact hnone
  | cons token tokens ih =>
      have htoken := h token (List.mem_cons_self ..)
      have hgap : (token ++ (tokens.flatMap (' ' :: ·) ++ rest)).dropWhile isGap =
          token ++ (tokens.flatMap (' ' :: ·) ++ rest) := by
        obtain ⟨c, more, rfl, hc⟩ := head_of_isToken htoken
        have hc : isBlank c = false := by
          rcases hc with hc | rfl | rfl
          · exact not_blank_of_isAtomChar hc
          · decide
          · decide
        exact List.dropWhile_cons_of_neg (by simp [not_gap_of_not_blank hc])
      have hsplit : splitOperand? ((token ++ (tokens.flatMap (' ' :: ·) ++ rest)).dropWhile isGap) =
          some (token, tokens.flatMap (' ' :: ·) ++ rest) := by
        rw [hgap]
        exact splitOperand?_of_isToken htoken fun c hc =>
          isBoundary_of_isBlank (blank_of_head?_flatMap tokens hrest c hc)
      rw [List.flatMap_cons, List.cons_append, List.cons_append, List.append_assoc,
        operandsOf_cons_of_some (by decide) hsplit,
        ih fun other hother => h other (List.mem_cons_of_mem _ hother)]

theorem isAtom_of_isMnemonic {cs : List Char} (h : isMnemonic cs = true) : isAtom cs = true := by
  obtain ⟨c, rest, rfl, -, -⟩ := ne_nil_of_isMnemonic h
  exact isAtom_of_forall (List.cons_ne_nil _ _) fun d hd =>
    isAtomChar_of_isAlnum (isAlnum_of_isMnemonic h d hd)

theorem toLower_ne_paren {c : Char} (h : isAtomChar c = true) : c.toLower ≠ '(' := by
  obtain ⟨hleast, hgreatest⟩ := isAtomChar_range h
  exact of_forall_ofNat 123 (P := fun c => 45 ≤ c.toNat → c.toLower ≠ '(') (by decide)
    (Nat.lt_succ_of_le hgreatest) hleast

/-- No token starts with a parenthesis, and none gets one in lower case. -/
theorem head?_lowerChars_ne_paren {cs : List Char} (h : IsToken cs) :
    (lowerChars cs).head? ≠ some '(' := by
  obtain ⟨c, rest, rfl, hc⟩ := head_of_isToken h
  rw [lowerChars, lowerAfter]
  rcases hc with hc | rfl | rfl
  · rw [lowerAt_of_ascii (Nat.lt_of_le_of_lt (isAtomChar_range hc).2 (by decide)),
      List.singleton_append, List.head?_cons]
    exact fun heq => toLower_ne_paren hc (Option.some.inj heq)
  · rw [lowerAt_of_ascii (by decide)]
    simp
  · have hlong : ∀ after, lowerAt [] 'ſ' after = ['ſ'] := by
      intro after
      rfl
    rw [hlong]
    simp

end Line

end ChipAsm
