import ChipAsm.Proofs.Grammar

/-!
# Lines in canonical form

The parts of a line have a canonical form: the head, each operand behind one space, and the comment
behind a number sign.  What was read of a line is read again of its canonical form (`ofChars?_canonical`).

This needs that the parts were read, and not only that each is well formed.  A mnemonic that spells the
word of a directive would become that directive, and a mnemonic that is the first operand behind a label
would become the mnemonic of the line.  Neither is read, because another derivation outranks it.

With the grammar this says all about the reader (`read?_iff_derives`): it reads exactly the lines of the
grammar, takes the derivation that outranks the others, and reads the same parts of the canonical form.
-/

namespace ChipAsm

open ChipAsm.Text ChipAsm.Token

namespace Line

/-- The canonical form of a head. -/
def headChars : Head → List Char
  | .directive word => word.toList
  | .code none none => []
  | .code none (some opcode) => opcode.toList
  | .code (some label) none => label.toList ++ [':']
  | .code (some label) (some opcode) => label.toList ++ ':' :: ' ' :: opcode.toList

/-- The canonical form of what follows the head. -/
def behindChars (operands : List String) (comment : Option String) : List Char :=
  (operands.map String.toList).flatMap (' ' :: ·) ++ commentChars comment

/-- The canonical form of a line. -/
def canonicalChars (line : Line) : List Char :=
  headChars line.head ++ behindChars line.operands line.comment

/-! ## Texts that are no directive -/

theorem directive?_of_atBoundary {cs : List Char} (h : AtBoundary cs) : directive? cs = none := by
  rw [directive?]
  split
  · rfl
  · rename_i text rest hfind
    obtain ⟨word, hword, hsplit⟩ := List.exists_of_findSome?_eq_some hfind
    have hspells := spells_of_splitWord? hsplit
    have hletters := not_boundary_of_spells (letters_of_mem_directiveWords hword) hspells
    obtain rfl := splitWord?_append hsplit
    cases text with
    | nil =>
        cases hspells
        exact absurd hword (by decide)
    | cons c text => exact absurd (h c rfl) (by simp [hletters c (List.mem_cons_self ..)])

/-- The colon of a label stands in no word of a directive. -/
theorem directive?_of_isLabelName {name : List Char} (h : isLabelName name = true) (rest : List Char) :
    directive? (name ++ ':' :: rest) = none := by
  rw [List.append_cons]
  refine directive?_eq_none (fun c hc => ?_) fun word hword text _ _ hspells hfront => ?_
  · rcases List.mem_append.1 hc with hc | hc
    · exact not_boundary_of_isAtomChar (isAtomChar_of_isLabelChar (isLabelChar_of_isLabelName h c hc))
    · cases List.mem_singleton.1 hc
      decide
  · have hcolon : ':' ∈ text := hfront.subset (by simp)
    obtain ⟨w, hw, hfold⟩ := hspells.exists_foldsTo ':' hcolon
    have hletter := letters_of_mem_directiveWords hword w hw
    rw [← plainLetter_of_foldsTo hletter hfold] at hletter
    exact absurd hletter (by decide)

/-! ## Words that are no mnemonic -/

/-- Behind the letters and digits that a token starts with it goes on, if at all, with no boundary. -/
theorem not_boundary_behind_alnum {text : List Char} (h : IsToken text) :
    ∀ c ∈ (text.dropWhile isAlnum).head?, isBoundary c = false := by
  intro c hc
  rcases h with hatom | ⟨call, hcall⟩
  · have hmem : c ∈ text := (List.dropWhile_suffix isAlnum).subset (List.mem_of_mem_head? hc)
    rcases mem_isAtom hatom hmem with rfl | hc
    · decide
    · exact not_boundary_of_isAtomChar hc
  · have hkeyword := not_boundary_of_keyword (call_of_split? hcall).1
    have htext := Call.split?_append hcall
    rw [List.append_nil, Call.chars, List.append_assoc] at htext
    rw [← htext, List.dropWhile_append] at hc
    split at hc
    · cases hc
      decide
    · rename_i hne
      have hkept : call.keyword.dropWhile isAlnum ≠ [] := fun hnil => hne (by rw [hnil]; rfl)
      obtain ⟨d, left, hd⟩ := List.exists_cons_of_ne_nil hkept
      rw [hd] at hc
      cases hc
      exact hkeyword c ((List.dropWhile_suffix isAlnum).subset (hd ▸ List.mem_cons_self ..))

theorem code?_of_not_mnemonic {text : List Char} (htext : IsToken text)
    (hnot : isMnemonic text = false) (label : Option String) (rest : List Char) :
    code? label (text ++ rest) = none := by
  obtain ⟨c, more, rfl, hc⟩ := not_boundary_of_isToken htext
  rw [code?_eq, List.cons_append, splitOpcode]
  split
  · rename_i halpha
    have hne : more.dropWhile isAlnum ≠ [] := by
      intro hnil
      have hall : more.all isAlnum = true := List.all_eq_true.2 (List.dropWhile_eq_nil_iff.1 hnil)
      simp [isMnemonic, halpha, hall] at hnot
    obtain ⟨d, left, hd⟩ := List.exists_cons_of_ne_nil hne
    have hboundary : isBoundary d = false := by
      refine not_boundary_behind_alnum htext d ?_
      rw [List.dropWhile_cons_of_pos (isAlnum_of_isAlpha halpha), hd]
      rfl
    rw [List.dropWhile_append, hd]
    exact withOperands?_of_not_boundary hboundary _ _
  · exact withOperands?_of_not_boundary hc _ _

/-! ## Reading the canonical form -/

theorem atBoundary_behindChars (operands : List String) (comment : Option String) :
    AtBoundary (behindChars operands comment) := fun c hc =>
  isBoundary_of_isBlank
    (blank_of_head?_flatMap (operands.map String.toList) (blank_of_head?_commentChars comment) c hc)

theorem behindChars_cons (token : String) (operands : List String) (comment : Option String) :
    behindChars (token :: operands) comment = ' ' :: (token.toList ++ behindChars operands comment) := by
  simp [behindChars]

theorem ending?_dropBlanks (cs : List Char) : ending? (dropBlanks cs) = ending? cs := by
  have hself : dropBlanks (dropBlanks cs) = dropBlanks cs := dropBlanks_of_stopsAt (stopsAt_dropBlanks cs)
  rw [ending?, ending?, isEnd, isEnd, hself]

theorem atBoundary_dropBlanks_commentChars (comment : Option String) :
    AtBoundary (dropBlanks (commentChars comment)) := by
  cases comment with
  | none => simp [AtBoundary, commentChars, dropBlanks]
  | some text =>
      intro c hc
      cases hc
      decide

/-- The blanks in front of a comment mean nothing. -/
theorem withOperands?_dropBlanks {comment : Option String} (head : Head)
    (hcomment : ∀ text ∈ comment, IsComment text.toList) :
    withOperands? head (dropBlanks (commentChars comment)) = some ⟨head, [], comment⟩ := by
  have hread := @withOperands?_printed [] comment head (by simp) hcomment
  have hnone : operandsOf (dropBlanks (commentChars comment)) =
      ([], dropBlanks (commentChars comment)) := by
    cases comment with
    | none => exact operandsOf_nil
    | some text => exact operandsOf_cons_of_not_gap (by decide)
  rw [List.map_nil, List.flatMap_nil, List.nil_append, withOperands?, operandsOf_commentChars] at hread
  rw [withOperands?, hnone]
  simpa only [ending?_dropBlanks] using hread

theorem stopsAt_of_isLabelName {name : List Char} (h : isLabelName name = true) (rest : List Char) :
    StopsAt isBlank (name ++ rest) := by
  intro c hc
  cases name with
  | nil => cases h
  | cons d name =>
      cases hc
      exact not_blank_of_isLabelChar (isLabelChar_of_isLabelName h c (List.mem_cons_self ..))

/-- A text that starts with a label is read as what follows the label. -/
theorem ofChars?_of_labelled? {name rest : List Char} {line : Line} (h : isLabelName name = true)
    (hread : (code? (some (String.ofList name)) (dropBlanks rest)).or
      (bare? (some (String.ofList name)) rest) = some line) :
    ofChars? (name ++ ':' :: rest) = some line := by
  have hlabelled : labelled? (name ++ ':' :: rest) = some line := by
    rw [labelled?, splitLabel?_of_isLabelName h]
    exact hread
  simp only [ofChars?, dropBlanks_of_stopsAt (stopsAt_of_isLabelName h _), directive?_of_isLabelName h,
    hlabelled, Option.none_or, Option.some_or]

section Printed

variable {operands : List String} {comment : Option String}

/-- A label and a mnemonic. -/
theorem ofChars?_labelled_mnemonic {name text : List Char} (hname : isLabelName name = true)
    (htext : isMnemonic text = true) (htokens : ∀ token ∈ operands, IsToken token.toList)
    (hcomment : ∀ text ∈ comment, IsComment text.toList) :
    ofChars? (name ++ ':' :: ' ' :: (text ++ behindChars operands comment)) =
      some ⟨.code (some (String.ofList name)) (some (String.ofList text)), operands, comment⟩ := by
  refine ofChars?_of_labelled? hname ?_
  have hstops := stopsAt_of_isToken (.inl (isAtom_of_isMnemonic htext)) (behindChars operands comment)
  have hdrop : dropBlanks (' ' :: (text ++ behindChars operands comment)) =
      text ++ behindChars operands comment := by
    rw [dropBlanks, List.dropWhile_cons_of_pos (by decide)]
    exact dropBlanks_of_stopsAt hstops
  rw [hdrop, code?_of_isMnemonic htext (atBoundary_behindChars operands comment), behindChars,
    withOperands?_printed _ htokens hcomment, Option.some_or]

/-- A label without a mnemonic, in front of no word that could be one. -/
theorem ofChars?_labelled_bare {name : List Char} (hname : isLabelName name = true)
    (hfirst : ∀ token ∈ operands.head?, isMnemonic token.toList = false)
    (htokens : ∀ token ∈ operands, IsToken token.toList)
    (hcomment : ∀ text ∈ comment, IsComment text.toList) :
    ofChars? (name ++ ':' :: behindChars operands comment) =
      some ⟨.code (some (String.ofList name)) none, operands, comment⟩ := by
  refine ofChars?_of_labelled? hname ?_
  cases operands with
  | nil =>
      show (code? _ (dropBlanks (commentChars comment))).or _ = _
      rw [code?_of_atBoundary (atBoundary_dropBlanks_commentChars comment),
        withOperands?_dropBlanks _ hcomment, Option.some_or]
  | cons token operands =>
      have htoken := htokens token (List.mem_cons_self ..)
      have hstops := stopsAt_of_isToken htoken (behindChars operands comment)
      have hdrop : dropBlanks (behindChars (token :: operands) comment) =
          token.toList ++ behindChars operands comment := by
        rw [behindChars_cons, dropBlanks, List.dropWhile_cons_of_pos (by decide)]
        exact dropBlanks_of_stopsAt hstops
      have hblank : (behindChars (token :: operands) comment).takeWhile isBlank = [' '] := by
        rw [behindChars_cons]
        exact @takeWhile_append_of_stopsAt isBlank [' '] _ (List.forall_mem_singleton.2 rfl) hstops
      rw [bare?, hblank, hdrop, code?_of_not_mnemonic htoken (hfirst token rfl), Option.none_or]
      show withOperands? _ (' ' :: (token.toList ++ behindChars operands comment)) = _
      rw [← behindChars_cons]
      exact withOperands?_printed _ htokens hcomment

/-- A comment alone. -/
theorem ofChars?_commentChars (hcomment : ∀ text ∈ comment, IsComment text.toList) :
    ofChars? (commentChars comment) = some ⟨.code none none, [], comment⟩ := by
  have hboundary := atBoundary_dropBlanks_commentChars comment
  have hsplit : splitLabel? (dropBlanks (commentChars comment)) = none :=
    @splitLabel?_of_atBoundary [] _ (by simp) hboundary
  have hlabelled : labelled? (dropBlanks (commentChars comment)) = none := by rw [labelled?, hsplit]
  simp only [ofChars?, directive?_of_atBoundary hboundary, hlabelled, code?_of_atBoundary hboundary,
    withOperands?_dropBlanks _ hcomment, Option.none_or, Option.some_or]

end Printed

/-! ## Lines that were read -/

theorem ofMnemonic_directiveWord : ∀ word ∈ directiveWords, isMnemonic word = true ∧
    Head.ofMnemonic (String.ofList word) = .directive (String.ofList word) := by
  decide

/-- A mnemonic that is read without a label spells no directive. -/
theorem ofMnemonic_of_outranks {text behind comment : List Char} {operands : List String}
    (htext : isMnemonic text = true) (hrest : DerivesRest behind operands comment)
    (hfirst : ∀ other, Derives (text ++ behind) other →
      Outranks ⟨.code none (some (String.ofList text)), operands, nonempty? comment⟩ other) :
    Head.ofMnemonic (String.ofList text) = .code none (some (String.ofList text)) := by
  refine if_neg fun hlower => ?_
  rw [lower_mem_iff (by rwa [String.toList_ofList]), String.toList_ofList] at hlower
  have hspells := spells_toLower (ascii_of_isMnemonic htext) (letters_of_mem_directiveWords hlower)
  cases hfirst _ (.line (.directive hlower hspells) hrest) with
  | directive hdirective _ => cases hdirective
  | opcode _ hcode => cases hcode
  | comment hhead _ _ => cases hhead

/-- The first operand behind a label is no mnemonic. -/
theorem not_mnemonic_of_outranks {name blanks behind comment : List Char} {operands : List String}
    (hname : isLabelName name = true) (hblanks : AllBlank blanks)
    (hrest : DerivesRest behind operands comment)
    (hfirst : ∀ other, Derives (name ++ ':' :: blanks ++ behind) other →
      Outranks ⟨.code (some (String.ofList name)) none, operands, nonempty? comment⟩ other) :
    ∀ token ∈ operands.head?, isMnemonic token.toList = false := by
  intro token htoken
  cases hrest with
  | done _ => cases htoken
  | @operand gap text rest _ operands hne hgap htext hrest =>
      cases htoken
      rw [String.toList_ofList, ← Bool.not_eq_true]
      intro hmnemonic
      have hfront : AllBlank (blanks ++ gap) := by
        intro c hc
        rcases List.mem_append.1 hc with hc | hc
        · exact hblanks c hc
        · exact isBlank_of_isGap (hgap c hc)
      have hother := Derives.line (.code (.present hname hfront) (.present hmnemonic)) hrest
      have htexts : name ++ ':' :: (blanks ++ gap) ++ text ++ rest =
          name ++ ':' :: blanks ++ (gap ++ (text ++ rest)) := by simp
      rw [htexts] at hother
      cases hfirst _ hother with
      | directive hdirective _ => cases hdirective
      | opcode hopcode _ => cases hopcode
      | comment hhead _ _ => cases hhead

/-- What was read of a line is read again of its canonical form. -/
theorem ofChars?_canonical {cs : List Char} {line : Line} (hcs : StopsAt isBlank cs)
    (hline : '\n' ∉ cs) (hplain : PlainDirective cs) (h : ofChars? cs = some line) :
    ofChars? (canonicalChars line) = some line := by
  have htokens := isToken_of_mem_operands h
  have hcomment := fun text => @isComment_of_ofChars? _ _ text h
  obtain ⟨hderives, hfirst⟩ := (ofChars?_eq_some_iff hcs hline hplain).1 h
  cases hderives with
  | line hhead hrest =>
      cases hhead with
      | directive hword hspells =>
          obtain ⟨hmnemonic, hdirective⟩ := ofMnemonic_directiveWord _ hword
          have hprinted := ofChars?_printed (by rwa [String.toList_ofList]) htokens hcomment
          rw [hdirective] at hprinted
          exact hprinted
      | code hlabel hopcode =>
          cases hlabel with
          | absent =>
              cases hopcode with
              | absent =>
                  cases hrest with
                  | done _ => exact ofChars?_commentChars hcomment
                  | @operand gap _ _ _ _ hne hgap _ _ =>
                      obtain ⟨g, gs, rfl⟩ := List.exists_cons_of_ne_nil hne
                      have hblank := isBlank_of_isGap (hgap g (List.mem_cons_self ..))
                      exact absurd (hcs g rfl) (by simp [hblank])
              | present hmnemonic =>
                  have hprinted := ofChars?_printed (by rwa [String.toList_ofList]) htokens hcomment
                  rw [ofMnemonic_of_outranks hmnemonic hrest hfirst] at hprinted
                  exact hprinted
          | present hname hblanks =>
              cases hopcode with
              | absent =>
                  rw [List.append_nil] at hfirst
                  have hbare := ofChars?_labelled_bare hname
                    (not_mnemonic_of_outranks hname hblanks hrest hfirst) htokens hcomment
                  simpa only [canonicalChars, headChars, String.toList_ofList, List.append_assoc,
                    List.singleton_append] using hbare
              | present hmnemonic =>
                  have hlabelled := ofChars?_labelled_mnemonic hname hmnemonic htokens hcomment
                  simpa only [canonicalChars, headChars, String.toList_ofList, List.append_assoc,
                    List.cons_append] using hlabelled

/-- A line without blanks at its ends and without a line feed, whose directive is ASCII, is read exactly
when the grammar derives it.  What is read is the derived line that outranks all others, and the same is
read of its canonical form. -/
theorem read?_iff_derives {text : String} (hstrip : strip text = text) (hline : '\n' ∉ text.toList)
    (hplain : PlainDirective text.toList) :
    ((read? text).isSome = true ↔ ∃ line, Derives text.toList line) ∧
      (∀ line, read? text = some line ↔ Derives text.toList line ∧
        ∀ other, Derives text.toList other → Outranks line other) ∧
      ∀ line, read? text = some line → read? (String.ofList (canonicalChars line)) = some line := by
  have hcs : StopsAt isBlank text.toList := by
    intro c hc
    obtain ⟨cs, htext⟩ := List.head?_eq_some_iff.1 hc
    have hself := congrArg String.toList hstrip
    rw [strip, String.toList_ofList] at hself
    exact not_blank_of_stripChars (hself.trans htext)
  refine ⟨⟨fun h => ?_, fun ⟨other, hother⟩ => ?_⟩, fun line => ofChars?_eq_some_iff hcs hline hplain,
    fun line h => ?_⟩
  · obtain ⟨line, hread⟩ := Option.isSome_iff_exists.1 h
    exact ⟨line, derives_of_ofChars? hcs hline hplain hread⟩
  · obtain ⟨line, hread, -⟩ := ofChars?_outranks hcs hline hplain hother
    exact Option.isSome_iff_exists.2 ⟨line, hread⟩
  · rw [read?, String.toList_ofList]
    exact ofChars?_canonical hcs hline hplain h

/-- A line with a label, a mnemonic that spells a directive, a call and a comment. -/
def looseText : String := "loop:  ALIAS\tHASH(\"x y\") $F# n \\"

/-- The parts of `looseText`. -/
def looseLine : Line := ⟨.code (some "loop") (some "ALIAS"), ["HASH(\"x y\")", "$F"], some "n \\"⟩

theorem read?_iff_derives_loose :
    read? looseText = some looseLine ∧ Derives looseText.toList looseLine ∧
      (∀ other, Derives looseText.toList other → Outranks looseLine other) ∧
      read? (String.ofList (canonicalChars looseLine)) = some looseLine := by
  have hread : read? looseText = some looseLine := by decide +kernel
  have hascii : looseText.toList.all (fun c => decide (c.toNat < 128)) = true := by decide +kernel
  have hplain : PlainDirective looseText.toList := by
    intro word text behind operands comment hcs _ _ _ c hc
    have hmem : c ∈ looseText.toList := hcs ▸ List.mem_append_left _ hc
    exact of_decide_eq_true (List.all_eq_true.1 hascii c hmem)
  obtain ⟨-, hiff, hagain⟩ := read?_iff_derives (by decide +kernel) (by decide +kernel) hplain
  obtain ⟨hderives, hfirst⟩ := (hiff looseLine).1 hread
  exact ⟨hread, hderives, hfirst, hagain looseLine hread⟩

end Line

end ChipAsm
