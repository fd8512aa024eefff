import ChipAsm.Proofs.Directive

/-!
# The value of a call

A call is a keyword, and a text without quotes between quotes and parentheses (`IsCallOf`).  The keyword
is recognised without regard to case.  What the call stands for is then told by the lower case of the
keyword, and here a long s is no s: a call that spells `hash` with one is taken for the other keyword
(`callValue?_of_spelling`).  All other spellings of `hash` give the checksum, and all spellings of `str`
the packed text.
-/

namespace ChipAsm.Token

open ChipAsm.Text ChipAsm.Line

/-! ## Calls as they are written -/

/-- The two words that can be called. -/
def callWords : List (List Char) := [Call.hashWord, Call.packWord]

theorem hashWord_mem : Call.hashWord ∈ callWords := by simp [callWords]

theorem packWord_mem : Call.packWord ∈ callWords := by simp [callWords]

theorem letters_of_mem_callWords {word : List Char} (h : word ∈ callWords) :
    ∀ w ∈ word, 97 ≤ w.toNat ∧ w.toNat < 123 := by
  have hall : ∀ word ∈ callWords, ∀ w ∈ word, 97 ≤ w.toNat ∧ w.toNat < 123 := by
    simp [callWords, Call.hashWord, Call.packWord]
  exact hall word h

theorem quote_not_mem_of_spells {word keyword : List Char} (hword : word ∈ callWords)
    (h : Spells word keyword) : '"' ∉ keyword := by
  intro hmem
  obtain ⟨w, hw, hfold⟩ := h.exists_foldsTo _ hmem
  have hletter := letters_of_mem_callWords hword w hw
  rw [← plainLetter_of_foldsTo hletter hfold] at hletter
  exact absurd hletter (by decide)

/-- The token calls the word: a spelling of the word stands in front of a text in quotes and
parentheses.  A line feed at the end is disregarded. -/
structure IsCallOf (word keyword argument : List Char) (token : String) : Prop where
  spelled : Spells word keyword
  quoteless : '"' ∉ argument
  text : ∃ rest ∈ [[], ['\n']],
    token.toList = keyword ++ '(' :: '"' :: argument ++ '"' :: ')' :: rest

namespace IsCallOf

variable {word keyword argument : List Char} {token : String}

theorem read? (h : IsCallOf word keyword argument token) (hword : word ∈ callWords) :
    Call.read? token = some ⟨keyword, argument⟩ := by
  obtain ⟨rest, hrest, htext⟩ := h.text
  have hkeyword : Spells Call.hashWord keyword ∨ Spells Call.packWord keyword := by
    simp only [callWords, List.mem_cons, List.not_mem_nil, or_false] at hword
    rcases hword with rfl | rfl
    · exact .inl h.spelled
    · exact .inr h.spelled
  have hsplit : Call.split? token.toList = some (⟨keyword, argument⟩, rest) := by
    rw [← split?_of_spells hkeyword h.quoteless rest, htext]
    simp [Call.chars]
  rw [Call.read?, hsplit]
  simp only [List.mem_cons, List.not_mem_nil, or_false] at hrest
  rcases hrest with rfl | rfl <;> rfl

/-- The argument is what stands between the first and the last quote. -/
theorem betweenQuotes? (h : IsCallOf word keyword argument token) (hword : word ∈ callWords) :
    Token.betweenQuotes? token = some (String.ofList argument) := by
  obtain ⟨rest, hrest, htext⟩ := h.text
  have hfront : ∀ c ∈ keyword ++ ['('], (c != '"') = true := by
    intro c hc
    rw [bne_iff_ne]
    rintro rfl
    rcases List.mem_append.1 hc with hc | hc
    · exact quote_not_mem_of_spells hword h.spelled hc
    · exact absurd hc (by decide)
  have hback : ∀ c ∈ rest.reverse ++ [')'], (c != '"') = true := by
    simp only [List.mem_cons, List.not_mem_nil, or_false] at hrest
    rcases hrest with rfl | rfl <;> simp
  have hstop : ∀ cs, StopsAt (· != '"') ('"' :: cs) := by
    intro cs c hc
    cases hc
    rfl
  have hsplit : token.toList = (keyword ++ ['(']) ++ '"' :: (argument ++ '"' :: ')' :: rest) := by
    rw [htext]
    simp
  have hreverse : (argument ++ '"' :: ')' :: rest).reverse =
      (rest.reverse ++ [')']) ++ '"' :: argument.reverse := by
    simp
  rw [Token.betweenQuotes?, hsplit, dropWhile_append_of_stopsAt hfront (hstop _)]
  simp only [hreverse, dropWhile_append_of_stopsAt hback (hstop _), List.drop_succ_cons,
    List.drop_zero, List.reverse_reverse]

end IsCallOf

/-- A token is a call exactly when it calls one of the two words. -/
theorem isCall_iff {token : String} :
    isCall token = true ↔ ∃ keyword argument, IsCallOf Call.hashWord keyword argument token ∨
      IsCallOf Call.packWord keyword argument token := by
  constructor
  · intro h
    obtain ⟨call, hcall⟩ := Option.isSome_iff_exists.1 h
    obtain ⟨rest, hrest, hsplit⟩ : ∃ rest ∈ [[], ['\n']],
        Call.split? token.toList = some (call, rest) := by
      rw [Call.read?] at hcall
      split at hcall
      · rename_i hsplit
        cases hcall
        exact ⟨[], by simp, hsplit⟩
      · rename_i hsplit
        cases hcall
        exact ⟨['\n'], by simp, hsplit⟩
      · cases hcall
    obtain ⟨hkeyword, hargument⟩ := call_of_split? hsplit
    have htext : token.toList =
        call.keyword ++ '(' :: '"' :: call.argument ++ '"' :: ')' :: rest := by
      rw [← Call.split?_append hsplit]
      simp [Call.chars]
    refine ⟨call.keyword, call.argument, ?_⟩
    exact hkeyword.imp (⟨·, hargument, rest, hrest, htext⟩) (⟨·, hargument, rest, hrest, htext⟩)
  · rintro ⟨keyword, argument, h | h⟩
    · rw [isCall, h.read? hashWord_mem]
      rfl
    · rw [isCall, h.read? packWord_mem]
      rfl

/-! ## The word that counts -/

/-- Only an `i` or an `s` is spelled outside ASCII. -/
theorem ascii_of_foldsTo {w c : Char} (hletter : 97 ≤ w.toNat ∧ w.toNat < 123) (hw : w ≠ 'i')
    (hc : c ≠ 'ſ') (h : foldsTo w c = true) : c.toNat < 128 := by
  have hupper := of_forall_ofNat 123 (P := fun w => 97 ≤ w.toNat → w.toUpper.toNat < 128) (by decide)
    hletter.2 hletter.1
  simp only [foldsTo, Bool.or_eq_true, Bool.and_eq_true, beq_iff_eq] at h
  rcases h with ((rfl | rfl) | ⟨hi, -⟩) | ⟨-, hs⟩
  · omega
  · exact hupper
  · exact absurd hi hw
  · exact absurd hs hc

/-- The lower case of a spelling of `hash` is `hash` if and only if it has no long s. -/
theorem lowerChars_eq_hashWord_iff {keyword : List Char} (h : Spells Call.hashWord keyword) :
    lowerChars keyword = Call.hashWord ↔ 'ſ' ∉ keyword := by
  have hletters := letters_of_mem_callWords hashWord_mem
  constructor
  · intro hlower hmem
    obtain ⟨d, hd, hge⟩ := lowerChars_of_not_ascii hletters h ⟨'ſ', hmem, by decide⟩
    rw [hlower] at hd
    have hlt := (hletters d hd).2
    omega
  · intro hlong
    refine lowerChars_of_spells hletters (fun c hc => ?_) h
    obtain ⟨w, hw, hfold⟩ := h.exists_foldsTo c hc
    refine ascii_of_foldsTo (hletters w hw) ?_ (fun heq => hlong (heq ▸ hc)) hfold
    rintro rfl
    exact absurd hw (by decide)

/-- The lower case of a spelling of `str` is `str`, or has a letter that is not ASCII; it is never
`hash`. -/
theorem lowerChars_ne_hashWord {keyword : List Char} (h : Spells Call.packWord keyword) :
    lowerChars keyword ≠ Call.hashWord := by
  have hpack := letters_of_mem_callWords packWord_mem
  intro hlower
  by_cases hascii : ∀ c ∈ keyword, c.toNat < 128
  · rw [lowerChars_of_spells hpack hascii h] at hlower
    exact absurd hlower (by decide)
  · simp only [Classical.not_forall, Nat.not_lt] at hascii
    obtain ⟨c, hc, hge⟩ := hascii
    obtain ⟨d, hd, hge⟩ := lowerChars_of_not_ascii hpack h ⟨c, hc, hge⟩
    rw [hlower] at hd
    have hlt := (letters_of_mem_callWords hashWord_mem d hd).2
    omega

/-- A token is a call exactly when it calls `hash` or `str`.  What it stands for is computed from the
text between its quotes.  A call of `hash` stands for the checksum, unless the keyword is spelled with a
long s.  Then it stands for the packed text, as every call of `str` does. -/
theorem callValue?_of_spelling (token : String) :
    (isCall token = true ↔ ∃ keyword argument, IsCallOf Call.hashWord keyword argument token ∨
      IsCallOf Call.packWord keyword argument token) ∧
    ∀ keyword argument,
      (IsCallOf Call.hashWord keyword argument token →
        keyword.length = 4 ∧ betweenQuotes? token = some (String.ofList argument) ∧
        callValue? token =
          some (if 'ſ' ∈ keyword then packText argument else hashText argument)) ∧
      (IsCallOf Call.packWord keyword argument token →
        keyword.length = 3 ∧ betweenQuotes? token = some (String.ofList argument) ∧
        callValue? token = some (packText argument)) := by
  refine ⟨isCall_iff, fun keyword argument => ⟨fun h => ?_, fun h => ?_⟩⟩
  · refine ⟨h.spelled.length_eq.symm, h.betweenQuotes? hashWord_mem, ?_⟩
    rw [callValue?, h.read? hashWord_mem, Option.map_some, Call.value]
    simp only [lowerChars_eq_hashWord_iff h.spelled, ite_not]
  · refine ⟨h.spelled.length_eq.symm, h.betweenQuotes? packWord_mem, ?_⟩
    rw [callValue?, h.read? packWord_mem, Option.map_some, Call.value,
      if_neg (lowerChars_ne_hashWord h.spelled)]

/-- Calls of both words, spelled in mixed case and with a long s. -/
theorem callValue?_of_spelling_mixed :
    callValue? "HaSh(\"abc\")" = some 891568578 ∧ callValue? "ſTr(\"abc\")" = some 6382179 := by
  have hhash : IsCallOf Call.hashWord "HaSh".toList "abc".toList "HaSh(\"abc\")" :=
    ⟨by decide, by decide, [], by decide⟩
  have hpack : IsCallOf Call.packWord "ſTr".toList "abc".toList "ſTr(\"abc\")" :=
    ⟨by decide, by decide, [], by decide⟩
  have hchecksum := (((callValue?_of_spelling _).2 _ _).1 hhash).2.2
  have hpacked := (((callValue?_of_spelling _).2 _ _).2 hpack).2.2
  rw [hchecksum, hpacked]
  decide +kernel

/-- A call that spells `hash` with a long s stands for the packed text, and not for the checksum. -/
theorem long_s_packed :
    IsCallOf Call.hashWord "haſh".toList "abc".toList "haſh(\"abc\")" ∧
      isCall "haſh(\"abc\")" = true ∧ callValue? "haſh(\"abc\")" = some (packText "abc".toList) ∧
      packText "abc".toList ≠ hashText "abc".toList := by
  refine ⟨⟨by decide, by decide, [], by decide⟩, ?_⟩
  decide +kernel

end ChipAsm.Token
