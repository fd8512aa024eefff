import Mathlib.Data.List.Basic
import Mathlib.Data.List.TakeWhile
import ChipAsm.Proofs.Spelling

/-!
# Lines that are read back

A line that consists of a mnemonic, tokens with a space in front of each and a comment behind a number
sign is read as exactly these parts (`ofChars?_printed`).

A mnemonic that spells the word of a directive, in any case, is read as that directive.  One that only
starts with such a word is not: no gap stands behind the word, so the reader gives it up and takes the
whole run of letters and digits for a mnemonic.  A space stands behind the mnemonic, so it is no label,
and the number sign starts no operand.
-/

namespace ChipAsm

open ChipAsm.Text ChipAsm.Token

/-- The head that a line with the mnemonic in front is read with. -/
def Head.ofMnemonic (opcode : String) : Head :=
  if lower opcode ∈ ["alias", "section", "define"] then .directive (lower opcode)
  else .code none (some opcode)

namespace Line

/-! ## Words of directives -/

theorem foldsTo_toLower {c : Char} (hc : c.toNat < 128)
    (hletter : 97 ≤ c.toLower.toNat ∧ c.toLower.toNat < 123) : foldsTo c.toLower c = true := by
  exact of_forall_ofNat 128
    (P := fun c => 97 ≤ c.toLower.toNat → c.toLower.toNat < 123 → foldsTo c.toLower c = true)
    (by decide) hc hletter.1 hletter.2

/-- A run of letters spells its lower case. -/
theorem spells_toLower {run : List Char} (hrun : ∀ c ∈ run, c.toNat < 128)
    (hword : ∀ w ∈ run.map Char.toLower, 97 ≤ w.toNat ∧ w.toNat < 123) :
    Spells (run.map Char.toLower) run := by
  induction run with
  | nil => exact .nil
  | cons c run ih =>
      rw [List.map_cons, List.forall_mem_cons] at hword
      rw [List.forall_mem_cons] at hrun
      exact .cons (foldsTo_toLower hrun.1 hword.1) (ih hrun.2 hword.2)

theorem letters_of_mem_directiveWords {word : List Char} (h : word ∈ directiveWords) :
    ∀ w ∈ word, 97 ≤ w.toNat ∧ w.toNat < 123 := by
  have hall : (directiveWords.all fun word =>
      word.all fun w => decide (97 ≤ w.toNat ∧ w.toNat < 123)) = true := by decide
  intro w hw
  exact of_decide_eq_true (List.all_eq_true.1 (List.all_eq_true.1 hall word h) w hw)

theorem plainLetter_of_ascii {c : Char} (h : c.toNat < 128) : plainLetter c = c.toLower :=
  of_forall_ofNat 128 (P := fun c => plainLetter c = c.toLower) (by decide) h

theorem map_plainLetter_of_spells {word text : List Char}
    (hword : ∀ w ∈ word, 97 ≤ w.toNat ∧ w.toNat < 123) (h : Spells word text) :
    text.map plainLetter = word := by
  induction h with
  | nil => rfl
  | cons hc _ ih =>
      rw [List.forall_mem_cons] at hword
      rw [List.map_cons, plainLetter_of_foldsTo hword.1 hc, ih hword.2]

/-- The lower case of an ASCII text that spells a word is the word. -/
theorem lowerChars_of_spells {word text : List Char}
    (hword : ∀ w ∈ word, 97 ≤ w.toNat ∧ w.toNat < 123) (hascii : ∀ c ∈ text, c.toNat < 128)
    (h : Spells word text) : lowerChars text = word := by
  rw [lowerChars_of_ascii hascii, ← map_plainLetter_of_spells hword h]
  exact List.map_congr_left fun c hc => (plainLetter_of_ascii (hascii c hc)).symm

theorem eq_of_head?_directiveWord :
    ∀ word ∈ directiveWords, ∀ other ∈ directiveWords, other.head? = word.head? → other = word := by
  decide

/-- No two directives start with the same letter, so no other word is found. -/
theorem findSome?_of_spells {word text : List Char} (hword : word ∈ directiveWords)
    (h : Spells word text) (rest : List Char) :
    directiveWords.findSome? (splitWord? · (text ++ rest)) = some (text, rest) := by
  have hsplit := splitWord?_of_spells h rest
  cases hfind : directiveWords.findSome? (splitWord? · (text ++ rest)) with
  | none => exact absurd (List.findSome?_eq_none_iff.1 hfind word hword) (by simp [hsplit])
  | some found =>
      obtain ⟨other, hother, hfound⟩ := List.exists_of_findSome?_eq_some hfind
      have hhead : other.head? = word.head? := by
        have htext := splitWord?_append hfound
        have hspells := spells_of_splitWord? hfound
        have hletters := map_plainLetter_of_spells (letters_of_mem_directiveWords hother) hspells
        rw [← map_plainLetter_of_spells (letters_of_mem_directiveWords hword) h, ← hletters,
          List.head?_map, List.head?_map]
        cases h with
        | nil => exact absurd hword (by decide)
        | cons _ _ =>
            generalize found.1 = front at htext hspells
            cases hspells with
            | nil => exact absurd hother (by decide)
            | cons _ _ =>
                rw [List.cons_append, List.cons_append, List.cons.injEq] at htext
                rw [List.head?_cons, List.head?_cons, htext.1]
      rw [eq_of_head?_directiveWord word hword other hother hhead, hsplit] at hfound
      exact hfound.symm

theorem directive?_of_spells {word text : List Char} (hword : word ∈ directiveWords)
    (h : Spells word text) (hascii : ∀ c ∈ text, c.toNat < 128) (rest : List Char) :
    directive? (text ++ rest) = withOperands? (.directive (String.ofList word)) rest := by
  simp only [directive?, findSome?_of_spells hword h rest,
    lowerChars_of_spells (letters_of_mem_directiveWords hword) hascii h]

theorem ascii_of_isMnemonic {cs : List Char} (h : isMnemonic cs = true) :
    ∀ c ∈ cs, c.toNat < 128 := by
  intro c hc
  have hrange := isAtomChar_range (isAtomChar_of_isAlnum (isAlnum_of_isMnemonic h c hc))
  omega

/-- The mnemonic spells the word of a directive. -/
theorem lower_mem_iff {opcode : String} (hopcode : isMnemonic opcode.toList = true) :
    lower opcode ∈ ["alias", "section", "define"] ↔
      opcode.toList.map Char.toLower ∈ directiveWords := by
  have hwords : directiveWords = ["alias", "section", "define"].map String.toList := by decide
  have hlower : opcode.toList.map Char.toLower = (lower opcode).toList := by
    rw [lower, String.toList_ofList, lowerChars_of_ascii (ascii_of_isMnemonic hopcode)]
  rw [hwords, hlower, List.mem_map_of_injective fun _ _ => String.toList_inj.1]

/-- Neither operands nor an end start with a character that is no boundary. -/
theorem withOperands?_of_not_boundary {c : Char} (h : isBoundary c = false) (head : Head)
    (cs : List Char) : withOperands? head (c :: cs) = none := by
  simp only [isBoundary, Bool.or_eq_false_iff, beq_eq_false_iff_ne] at h
  obtain ⟨⟨hblank, hmark⟩, hslash⟩ := h
  have hdrop : dropBlanks (c :: cs) = c :: cs := dropBlanks_cons_of_not_blank hblank
  have hend : isEnd (c :: cs) = false := by
    rw [isEnd, hdrop]
    split
    · rename_i heq; cases heq
    · rename_i heq; cases heq; exact absurd rfl hslash
    · rename_i heq; cases heq; exact absurd rfl hslash
    · rfl
  have hending : ending? (c :: cs) = none := by
    rw [ending?, hdrop]
    simp [hmark, hend]
  simp only [withOperands?, operandsOf_cons_of_not_gap (not_gap_of_not_blank hblank), hending,
    Option.map_none]

/-- A text is no directive if the words of directives end inside the run that it starts with. -/
theorem directive?_eq_none {run rest : List Char} (hrun : ∀ c ∈ run, isBoundary c = false)
    (hshort : ∀ word ∈ directiveWords, ∀ text left, text ++ left = run ++ rest → Spells word text →
      ¬ run <+: text) : directive? (run ++ rest) = none := by
  rw [directive?]
  split
  · rfl
  · rename_i text left hfind
    obtain ⟨word, hword, hsplit⟩ := List.exists_of_findSome?_eq_some hfind
    have htext := splitWord?_append hsplit
    have hnot := hshort word hword text left htext (spells_of_splitWord? hsplit)
    rcases List.append_eq_append_iff.1 htext with ⟨more, rfl, hleft⟩ | ⟨more, rfl, -⟩
    · cases more with
      | nil => exact absurd (by simp) hnot
      | cons c more =>
          rw [show left = c :: (more ++ rest) from hleft]
          exact withOperands?_of_not_boundary
            (hrun c (List.mem_append_right _ (List.mem_cons_self ..))) _ _
    · exact absurd (List.prefix_append run more) hnot

/-- A mnemonic that is not the word of a directive is none. -/
theorem directive?_of_not_mem {opcode rest : List Char} (hopcode : isMnemonic opcode = true)
    (hrest : AtBoundary rest) (hword : opcode.map Char.toLower ∉ directiveWords) :
    directive? (opcode ++ rest) = none := by
  refine directive?_eq_none (fun c hc => ?_) fun word hmem text left htext hspells hfront => ?_
  · exact not_boundary_of_isAtomChar (isAtomChar_of_isAlnum (isAlnum_of_isMnemonic hopcode c hc))
  have hletters := letters_of_mem_directiveWords hmem
  obtain ⟨more, rfl⟩ := hfront
  cases more with
  | nil =>
      rw [List.append_nil] at hspells
      refine hword ?_
      rwa [← lowerChars_of_ascii (ascii_of_isMnemonic hopcode),
        lowerChars_of_spells hletters (ascii_of_isMnemonic hopcode) hspells]
  | cons c more =>
      -- The word would have to go on behind the mnemonic, where a boundary stands.
      have hc := not_boundary_of_spells hletters hspells c
        (List.mem_append_right _ (List.mem_cons_self ..))
      rw [List.append_assoc, List.append_cancel_left_eq] at htext
      exact absurd (hrest c (by rw [← htext]; rfl)) (by simp [hc])

/-! ## Comments -/

/-- The text of a comment: it starts with no blank and goes to the end of its line. -/
structure IsComment (cs : List Char) : Prop where
  ne_nil : cs ≠ []
  starts : StopsAt isBlank cs
  newline : '\n' ∉ cs

theorem isComment_of_ending? {cs comment : List Char} (h : ending? cs = some comment)
    (hne : comment ≠ []) : IsComment comment := by
  rw [ending?] at h
  split at h
  · cases h
    exact absurd rfl hne
  · rename_i rest _
    split at h
    · rw [commentOf?] at h
      split at h
      · cases h
        refine ⟨hne, ?_, fun hmem => ?_⟩
        · intro c hc
          refine stopsAt_dropBlanks rest c ?_
          obtain ⟨after, hafter⟩ := List.takeWhile_prefix (· != '\n') (l := dropBlanks rest)
          rw [← hafter, List.head?_append, Option.mem_def.1 hc]
          rfl
        · have hall := List.all_eq_true.1 (List.all_takeWhile (p := (· != '\n'))) _ hmem
          exact absurd hall (by decide)
      · cases h
    · split at h
      · cases h
        exact absurd rfl hne
      · cases h

theorem isComment_of_ofChars? {cs : List Char} {line : Line} {comment : String}
    (h : ofChars? cs = some line) (hcomment : line.comment = some comment) :
    IsComment comment.toList := by
  obtain ⟨head, rest, hline, -⟩ := withOperands?_of_ofChars? h
  obtain ⟨text, hend, rfl⟩ := withOperands?_eq_some hline
  cases text with
  | nil => cases hcomment
  | cons c text =>
      cases hcomment
      rw [String.toList_ofList]
      exact isComment_of_ending? hend (List.cons_ne_nil _ _)

/-- A comment as it stands behind a line. -/
def commentChars : Option String → List Char
  | some comment => ' ' :: '#' :: ' ' :: comment.toList
  | none => []

theorem blank_of_head?_commentChars (comment : Option String) :
    ∀ c ∈ (commentChars comment).head?, isBlank c = true := by
  cases comment with
  | none => simp [commentChars]
  | some comment =>
      intro c hc
      cases hc
      decide

theorem operandsOf_commentChars (comment : Option String) :
    operandsOf (commentChars comment) = ([], commentChars comment) := by
  cases comment with
  | none => exact operandsOf_nil
  | some comment => exact operandsOf_cons_of_none rfl

theorem nonempty?_commentChars {comment : Option String}
    (h : ∀ text ∈ comment, IsComment text.toList) :
    (ending? (commentChars comment)).map nonempty? = some comment := by
  cases comment with
  | none => rfl
  | some comment =>
      obtain ⟨hne, hstarts, hnewline⟩ := h comment rfl
      obtain ⟨c, cs, hcs⟩ := List.exists_cons_of_ne_nil hne
      have hdrop : dropBlanks (' ' :: comment.toList) = comment.toList := by
        rw [dropBlanks, List.dropWhile_cons_of_pos (by decide), hcs]
        exact dropBlanks_cons_of_not_blank (hstarts c (by rw [hcs]; rfl))
      have hline : ∀ d ∈ comment.toList, (d != '\n') = true := by
        intro d hd
        simpa using fun heq : d = '\n' => hnewline (heq ▸ hd)
      have hend : ending? (commentChars (some comment)) = some comment.toList := by
        show commentOf? (' ' :: comment.toList) = some comment.toList
        rw [commentOf?]
        simp only [hdrop, List.takeWhile_eq_self_iff.2 hline, List.dropWhile_eq_nil_iff.2 hline]
        rfl
      have hself : nonempty? comment.toList = some (String.ofList comment.toList) := by
        rw [hcs]
        rfl
      rw [hend, Option.map_some, hself, String.ofList_toList]

/-! ## Lines -/

/-- Tokens and a comment are read as these, whatever the head is. -/
theorem withOperands?_printed {tokens : List String} {comment : Option String} (head : Head)
    (htokens : ∀ token ∈ tokens, IsToken token.toList)
    (hcomment : ∀ text ∈ comment, IsComment text.toList) :
    withOperands? head ((tokens.map String.toList).flatMap (' ' :: ·) ++ commentChars comment) =
      some ⟨head, tokens, comment⟩ := by
  have hoperands := operandsOf_tokens (List.forall_mem_map.2 htokens)
    (blank_of_head?_commentChars comment) (operandsOf_commentChars comment)
  obtain ⟨text, hend, htext⟩ := Option.map_eq_some_iff.1 (nonempty?_commentChars hcomment)
  simp only [withOperands?, hoperands, hend, Option.map_some, htext, List.map_map,
    Function.comp_def, String.ofList_toList, List.map_id']

/-- A line of a mnemonic, tokens and a comment is read as these. -/
theorem ofChars?_printed {opcode : String} {tokens : List String} {comment : Option String}
    (hopcode : isMnemonic opcode.toList = true) (htokens : ∀ token ∈ tokens, IsToken token.toList)
    (hcomment : ∀ text ∈ comment, IsComment text.toList) :
    ofChars? (opcode.toList ++
        ((tokens.map String.toList).flatMap (' ' :: ·) ++ commentChars comment)) =
      some ⟨.ofMnemonic opcode, tokens, comment⟩ := by
  have hrest := blank_of_head?_flatMap (tokens.map String.toList)
    (blank_of_head?_commentChars comment)
  have hbehind := fun head => withOperands?_printed head htokens hcomment
  generalize (tokens.map String.toList).flatMap (' ' :: ·) ++ commentChars comment = rest
    at hrest hbehind ⊢
  have hstart : dropBlanks (opcode.toList ++ rest) = opcode.toList ++ rest := by
    obtain ⟨c, cs, hcs, hc, -⟩ := ne_nil_of_isMnemonic hopcode
    rw [hcs]
    exact dropBlanks_cons_of_not_blank
      (not_blank_of_isAtomChar (isAtomChar_of_isAlnum (isAlnum_of_isAlpha hc)))
  simp only [ofChars?, hstart]
  rw [Head.ofMnemonic]
  split
  · rename_i hdirective
    rw [lower_mem_iff hopcode] at hdirective
    have hascii := ascii_of_isMnemonic hopcode
    have hspells := spells_toLower hascii (letters_of_mem_directiveWords hdirective)
    rw [directive?_of_spells hdirective hspells hascii, hbehind, lower, lowerChars_of_ascii hascii]
    rfl
  · rename_i hdirective
    rw [lower_mem_iff hopcode] at hdirective
    have hword : firstWord (opcode.toList ++ rest) = opcode.toList :=
      firstWord_append
        (fun c hc => isAtomChar_of_isAlnum (isAlnum_of_isMnemonic hopcode c hc)) hrest
    have hmnemonic : isMnemonic (firstWord (opcode.toList ++ rest)) = true := by rw [hword, hopcode]
    have hafter : (opcode.toList ++ rest).dropWhile (fun c => !isBlank c) = rest := by
      have hsplit := firstWord_append_dropWhile (opcode.toList ++ rest)
      rw [hword] at hsplit
      exact List.append_cancel_left hsplit
    have hlabelled : labelled? (opcode.toList ++ rest) = none := by
      rw [labelled?, splitLabel?_eq_none_of_isMnemonic hmnemonic]
    have hcode : code? none (opcode.toList ++ rest) =
        some ⟨.code none (some opcode), tokens, comment⟩ := by
      rw [code?_eq, splitOpcode_of_isMnemonic hmnemonic, hword, hafter, hbehind,
        String.ofList_toList]
    have hboundary : AtBoundary rest := fun c hc => isBoundary_of_isBlank (hrest c hc)
    rw [directive?_of_not_mem hopcode hboundary hdirective, hlabelled, hcode]
    rfl

end Line

theorem toList_intercalate_words (word : String) (words : List String) :
    (" ".intercalate (word :: words)).toList =
      word.toList ++ (words.map String.toList).flatMap (' ' :: ·) := by
  induction words generalizing word with
  | nil => simp
  | cons next words ih =>
      rw [String.intercalate_cons_cons, String.toList_append, String.toList_append, ih]
      simp

end ChipAsm
