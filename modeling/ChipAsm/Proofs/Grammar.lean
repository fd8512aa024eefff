import ChipAsm.Proofs.Rereading

/-!
# The grammar of lines

A line is derived from three parts.

* The head is the word of a directive in any case, or an optional label in front of an optional
  mnemonic.  A colon and any number of blanks stand behind a label.
* Each operand stands behind at least one gap.  It is a call, or an atom that cannot be made longer.
* The end is made of blanks and at most one backslash.  A comment may stand in front of these, behind
  its mark and blanks.

A text can be derived in more than one way.  The word of a directive may be a mnemonic too, a mnemonic
behind a label may be the first operand too, and the last characters of a comment may be its end.
`Outranks` says which derivation is taken.

What the reader finds is derived (`derives_of_ofChars?`), and the reader finds something wherever there is
a derivation, which outranks it (`ofChars?_outranks`).
-/

namespace ChipAsm

open ChipAsm.Text ChipAsm.Token

namespace Line

/-! ## The grammar -/

/-- Nothing but blanks. -/
def AllBlank (cs : List Char) : Prop := ∀ c ∈ cs, isBlank c = true

/-- An optional label. -/
inductive DerivesLabel : List Char → Option String → Prop where
  | absent : DerivesLabel [] none
  | present {name blanks : List Char} : isLabelName name = true → AllBlank blanks →
      DerivesLabel (name ++ ':' :: blanks) (some (String.ofList name))

/-- An optional mnemonic. -/
inductive DerivesOpcode : List Char → Option String → Prop where
  | absent : DerivesOpcode [] none
  | present {word : List Char} : isMnemonic word = true → DerivesOpcode word (some (String.ofList word))

/-- What a line starts with. -/
inductive DerivesHead : List Char → Head → Prop where
  | directive {word text : List Char} : word ∈ directiveWords → Spells word text →
      DerivesHead text (.directive (String.ofList word))
  | code {front text : List Char} {label opcode : Option String} : DerivesLabel front label →
      DerivesOpcode text opcode → DerivesHead (front ++ text) (.code label opcode)

/-- An operand in front of what follows it. -/
inductive DerivesOperand : List Char → List Char → Prop where
  | call {keyword argument rest : List Char} :
      Spells Call.hashWord keyword ∨ Spells Call.packWord keyword → '"' ∉ argument →
      DerivesOperand (Call.chars ⟨keyword, argument⟩) rest
  | atom {text rest : List Char} : isAtom text = true → StopsAt isAtomChar rest →
      DerivesOperand text rest

/-- Blanks, and at most one backslash. -/
def IsTail (cs : List Char) : Prop :=
  ∃ blanks slash, AllBlank blanks ∧ (slash = [] ∨ slash = ['\\']) ∧ cs = blanks ++ slash

/-- The end of a line with its comment, which is empty if there is none. -/
inductive DerivesEnd : List Char → List Char → Prop where
  | plain {tail : List Char} : IsTail tail → DerivesEnd tail []
  | comment {blanks margin text tail : List Char} {mark : Char} : AllBlank blanks →
      isCommentMark mark = true → AllBlank margin → StopsAt isBlank text → IsTail tail →
      DerivesEnd (blanks ++ mark :: (margin ++ (text ++ tail))) text

/-- What follows the head: operands, and the end with its comment. -/
inductive DerivesRest : List Char → List String → List Char → Prop where
  | done {cs comment : List Char} : DerivesEnd cs comment → DerivesRest cs [] comment
  | operand {gap text rest comment : List Char} {operands : List String} : gap ≠ [] →
      (∀ c ∈ gap, isGap c = true) → DerivesOperand text rest → DerivesRest rest operands comment →
      DerivesRest (gap ++ (text ++ rest)) (String.ofList text :: operands) comment

/-- A line. -/
inductive Derives : List Char → Line → Prop where
  | line {front behind comment : List Char} {head : Head} {operands : List String} :
      DerivesHead front head → DerivesRest behind operands comment →
      Derives (front ++ behind) ⟨head, operands, nonempty? comment⟩

/-- The characters of the comment. -/
def commentText (line : Line) : List Char := (line.comment.getD "").toList

/-- The first line is taken where the same text gives both: a directive and not a mnemonic, behind the
same label a mnemonic and not an operand, and else the longer comment. -/
inductive Outranks : Line → Line → Prop where
  | directive {line other : Line} {word : String} {label opcode : Option String} :
      line.head = .directive word → other.head = .code label opcode → Outranks line other
  | opcode {line other : Line} {label : Option String} {opcode : String} :
      line.head = .code label (some opcode) → other.head = .code label none → Outranks line other
  | comment {line other : Line} : other.head = line.head → other.operands = line.operands →
      commentText other <+: commentText line → Outranks line other

/-- The word of a directive that the text starts with is ASCII, if the rest allows it there. -/
def PlainDirective (cs : List Char) : Prop :=
  ∀ word text behind operands comment, cs = text ++ behind → word ∈ directiveWords →
    Spells word text → DerivesRest behind operands comment → ∀ c ∈ text, c.toNat < 128

/-! ## Operands -/

theorem not_boundary_of_isToken {cs : List Char} (h : IsToken cs) :
    ∃ c rest, cs = c :: rest ∧ isBoundary c = false := by
  obtain ⟨c, rest, rfl, hc⟩ := head_of_isToken h
  refine ⟨c, rest, rfl, ?_⟩
  rcases hc with hc | rfl | rfl
  · exact not_boundary_of_isAtomChar hc
  all_goals decide

theorem splitOperand?_eq_none {cs : List Char} (h : AtBoundary cs) : splitOperand? cs = none := by
  cases hsplit : splitOperand? cs with
  | none => rfl
  | some found =>
      obtain ⟨c, rest, hoperand, hc⟩ := not_boundary_of_isToken (isToken_of_splitOperand? hsplit)
      have htext := append_of_splitOperand? hsplit
      rw [hoperand, List.cons_append] at htext
      exact absurd (h c (by rw [← htext]; rfl)) (by simp [hc])

theorem DerivesOperand.isToken {text rest : List Char} (h : DerivesOperand text rest) :
    IsToken text := by
  cases h with
  | call hkeyword hquote =>
      have hsplit := split?_of_spells hkeyword hquote []
      rw [List.append_nil] at hsplit
      exact .inr ⟨_, hsplit⟩
  | atom hatom _ => exact .inl hatom

theorem stopsAt_of_splitRun? {cs run rest : List Char} (h : splitRun? cs = some (run, rest)) :
    StopsAt isAtomChar rest := by
  unfold splitRun? at h
  split at h
  · cases h
  · cases h
    exact stopsAt_dropWhile isAtomChar cs

theorem derivesOperand_of_splitOperand? {cs text rest : List Char}
    (h : splitOperand? cs = some (text, rest)) : DerivesOperand text rest := by
  unfold splitOperand? at h
  split at h
  · rename_i call rest' hcall
    cases h
    obtain ⟨hkeyword, hquote⟩ := call_of_split? hcall
    exact .call hkeyword hquote
  · refine .atom (isAtom_of_splitAtom? h) ?_
    unfold splitAtom? at h
    split at h
    · obtain ⟨⟨run, rest'⟩, hrun, heq⟩ := Option.map_eq_some_iff.1 h
      cases heq
      exact stopsAt_of_splitRun? hrun
    · exact stopsAt_of_splitRun? h

/-! ## Ends -/

theorem allBlank_takeWhile (cs : List Char) : AllBlank (cs.takeWhile isBlank) :=
  List.all_eq_true.1 List.all_takeWhile

theorem takeWhile_append_dropBlanks (cs : List Char) : cs.takeWhile isBlank ++ dropBlanks cs = cs :=
  List.takeWhile_append_dropWhile

theorem dropBlanks_append {blanks : List Char} (h : AllBlank blanks) (cs : List Char) :
    dropBlanks (blanks ++ cs) = dropBlanks cs :=
  List.dropWhile_append_of_pos h

theorem dropBlanks_of_stopsAt {cs : List Char} (h : StopsAt isBlank cs) : dropBlanks cs = cs := by
  cases cs with
  | nil => rfl
  | cons c cs => exact dropBlanks_cons_of_not_blank (h c rfl)

theorem not_blank_of_isCommentMark {mark : Char} (h : isCommentMark mark = true) :
    isBlank mark = false := by
  simp only [isCommentMark, Bool.or_eq_true, beq_iff_eq] at h
  rcases h with rfl | rfl <;> decide

theorem isTail_nil : IsTail [] := ⟨[], [], by simp [AllBlank], .inl rfl, rfl⟩

/-- The blanks in front of a tail and of a comment mean nothing. -/
theorem DerivesEnd.dropBlanks {cs comment : List Char} (h : DerivesEnd cs comment) :
    DerivesEnd (dropBlanks cs) comment := by
  cases h with
  | plain htail =>
      obtain ⟨blanks, slash, hblanks, hslash, rfl⟩ := htail
      rw [dropBlanks_append hblanks]
      refine .plain ⟨[], slash, by simp [AllBlank], hslash, ?_⟩
      rcases hslash with rfl | rfl <;> rfl
  | @comment blanks margin _ tail mark hblanks hmark hmargin htext htail =>
      rw [dropBlanks_append hblanks, dropBlanks_cons_of_not_blank (not_blank_of_isCommentMark hmark)]
      exact @DerivesEnd.comment [] margin comment tail mark (by simp [AllBlank]) hmark hmargin htext htail

theorem DerivesEnd.atBoundary {cs comment : List Char} (h : DerivesEnd cs comment) : AtBoundary cs := by
  have hhead : ∀ {blanks rest : List Char}, AllBlank blanks → AtBoundary rest →
      AtBoundary (blanks ++ rest) := by
    intro blanks rest hblanks hrest
    cases blanks with
    | nil => exact hrest
    | cons b blanks =>
        intro c hc
        cases hc
        exact isBoundary_of_isBlank (hblanks b (List.mem_cons_self ..))
  cases h with
  | plain htail =>
      obtain ⟨blanks, slash, hblanks, hslash, rfl⟩ := htail
      refine hhead hblanks ?_
      rcases hslash with rfl | rfl <;> simp [AtBoundary, isBoundary]
  | comment hblanks hmark _ _ _ =>
      refine hhead hblanks ?_
      simp [AtBoundary, isBoundary, hmark]

/-- An end starts with no operand. -/
theorem operandsOf_of_derivesEnd {cs comment : List Char} (h : DerivesEnd cs comment) :
    operandsOf cs = ([], cs) := by
  cases cs with
  | nil => exact operandsOf_nil
  | cons c more =>
      cases hgap : isGap c with
      | false => exact operandsOf_cons_of_not_gap hgap
      | true =>
          refine operandsOf_cons_of_none (splitOperand?_eq_none fun d hd => ?_)
          cases hblank : isBlank d with
          | true => exact isBoundary_of_isBlank hblank
          | false =>
              -- Behind the gaps no more blanks stand, so what stands there is left of the end without
              -- its blanks.
              have hgaps : AllBlank (c :: more.takeWhile isGap) := by
                rintro b (_ | ⟨_, hb⟩)
                · exact isBlank_of_isGap hgap
                · exact isBlank_of_isGap (List.all_eq_true.1 List.all_takeWhile b hb)
              have hstops : StopsAt isBlank (more.dropWhile isGap) := by
                intro b hb
                cases Option.mem_unique hb hd
                exact hblank
              have hdrop : dropBlanks (c :: more) = more.dropWhile isGap := by
                have hsplit := dropBlanks_append hgaps (more.dropWhile isGap)
                rwa [List.cons_append, List.takeWhile_append_dropWhile,
                  dropBlanks_of_stopsAt hstops] at hsplit
              exact h.dropBlanks.atBoundary d (hdrop ▸ hd)

/-- The comment that is read goes to the end of the text. -/
theorem ending?_of_derivesEnd {cs comment : List Char} (h : DerivesEnd cs comment) (hline : '\n' ∉ cs) :
    ∃ full, comment <+: full ∧ ending? cs = some full := by
  cases h with
  | plain htail =>
      obtain ⟨blanks, slash, hblanks, hslash, rfl⟩ := htail
      refine ⟨[], List.prefix_rfl, ?_⟩
      rw [ending?, isEnd, dropBlanks_append hblanks]
      rcases hslash with rfl | rfl <;> rfl
  | @comment blanks margin _ tail mark hblanks hmark hmargin htext htail =>
      have hrun : ∀ c ∈ dropBlanks (comment ++ tail), (c != '\n') = true := by
        intro c hc
        have hmem := dropBlanks_subset _ hc
        simpa using fun heq : c = '\n' => hline (by simp_all)
      refine ⟨dropBlanks (comment ++ tail), ?_, ?_⟩
      · cases comment with
        | nil => exact List.nil_prefix
        | cons c comment =>
            rw [List.cons_append, dropBlanks_cons_of_not_blank (htext c rfl)]
            exact List.prefix_append (c :: comment) tail
      · rw [ending?, dropBlanks_append hblanks,
          dropBlanks_cons_of_not_blank (not_blank_of_isCommentMark hmark)]
        simp only [hmark, if_true, commentOf?, dropBlanks_append hmargin]
        rw [List.takeWhile_eq_self_iff.2 hrun, List.dropWhile_eq_nil_iff.2 hrun]
        rfl

theorem derivesEnd_of_ending? {cs comment : List Char} (h : ending? cs = some comment)
    (hline : '\n' ∉ cs) : DerivesEnd cs comment := by
  have hsplit := takeWhile_append_dropBlanks cs
  have hblanks := allBlank_takeWhile cs
  rw [ending?] at h
  split at h
  · rename_i hdrop
    cases h
    exact .plain ⟨_, [], hblanks, .inl rfl, hdrop ▸ hsplit.symm⟩
  · rename_i c rest hdrop
    rw [hdrop] at hsplit
    have hrest : '\n' ∉ c :: rest := fun hmem => hline (dropBlanks_subset cs (hdrop ▸ hmem))
    split at h
    · rename_i hmark
      rw [commentOf?] at h
      split at h
      · cases h
        have hrun : ∀ d ∈ dropBlanks rest, (d != '\n') = true := by
          intro d hd
          have hmem := dropBlanks_subset rest hd
          simpa using fun heq : d = '\n' => hrest (heq ▸ List.mem_cons_of_mem _ hmem)
        rw [List.takeWhile_eq_self_iff.2 hrun]
        have hend := @DerivesEnd.comment _ _ (dropBlanks rest) [] c hblanks hmark
          (allBlank_takeWhile rest) (stopsAt_dropBlanks rest) isTail_nil
        rwa [List.append_nil, takeWhile_append_dropBlanks, hsplit] at hend
      · cases h
    · split at h
      · rename_i hend
        cases h
        rw [isEnd, hdrop] at hend
        split at hend
        · rename_i heq; cases heq
        · rename_i heq
          rw [heq] at hsplit
          exact .plain ⟨_, _, hblanks, .inr rfl, hsplit.symm⟩
        · rename_i heq
          exact absurd (heq ▸ hrest) (by simp)
        · cases hend
      · cases h

/-! ## What follows the head -/

theorem DerivesRest.atBoundary {cs comment : List Char} {operands : List String}
    (h : DerivesRest cs operands comment) : AtBoundary cs := by
  cases h with
  | done hend => exact hend.atBoundary
  | @operand gap text rest _ _ hne hgap _ _ =>
      obtain ⟨g, gs, rfl⟩ := List.exists_cons_of_ne_nil hne
      intro c hc
      cases hc
      exact isBoundary_of_isBlank (isBlank_of_isGap (hgap g (List.mem_cons_self ..)))

/-- The text of an operand is skipped over by no gap. -/
theorem stopsAt_of_isToken {text : List Char} (h : IsToken text) (rest : List Char) :
    StopsAt isBlank (text ++ rest) := by
  obtain ⟨c, more, rfl, hc⟩ := not_boundary_of_isToken h
  intro d hd
  cases hd
  simp only [isBoundary, Bool.or_eq_false_iff] at hc
  exact hc.1.1

theorem operandsOf_gap {gap text rest : List Char} (hne : gap ≠ []) (hgap : ∀ c ∈ gap, isGap c = true)
    (htext : IsToken text) (hrest : AtBoundary rest) :
    operandsOf (gap ++ (text ++ rest)) = (text :: (operandsOf rest).1, (operandsOf rest).2) := by
  obtain ⟨g, gs, rfl⟩ := List.exists_cons_of_ne_nil hne
  rw [List.forall_mem_cons] at hgap
  have hstops : StopsAt isGap (text ++ rest) := fun c hc =>
    not_gap_of_not_blank (stopsAt_of_isToken htext rest c hc)
  rw [List.cons_append]
  refine operandsOf_cons_of_some hgap.1 ?_
  rw [dropWhile_append_of_stopsAt hgap.2 hstops]
  exact splitOperand?_of_isToken htext hrest

/-- What is derived behind a head is read behind it, the comment to the end of the text. -/
theorem withOperands?_of_derivesRest {cs comment : List Char} {operands : List String}
    (h : DerivesRest cs operands comment) (hline : '\n' ∉ cs) :
    ∃ full, comment <+: full ∧ ∀ head, withOperands? head cs = some ⟨head, operands, nonempty? full⟩ := by
  induction h with
  | done hend =>
      obtain ⟨full, hfull, hending⟩ := ending?_of_derivesEnd hend hline
      refine ⟨full, hfull, fun head => ?_⟩
      simp only [withOperands?, operandsOf_of_derivesEnd hend, hending, Option.map_some, List.map_nil]
  | @operand gap text rest _ _ hne hgap htext hrest ih =>
      obtain ⟨full, hfull, hread⟩ := ih fun hmem => hline (by simp [hmem])
      refine ⟨full, hfull, fun head => ?_⟩
      obtain ⟨left, hending, heq⟩ := withOperands?_eq_some (hread head)
      rw [Line.mk.injEq] at heq
      simp only [withOperands?, operandsOf_gap hne hgap htext.isToken hrest.atBoundary, hending,
        Option.map_some, List.map_cons, ← heq.2.1, ← heq.2.2]

theorem derivesRest_of_operandsOf {cs comment : List Char} (h : DerivesEnd (operandsOf cs).2 comment) :
    DerivesRest cs ((operandsOf cs).1.map String.ofList) comment := by
  fun_induction operandsOf cs with
  | case1 => exact .done h
  | case2 => exact .done h
  | case3 c more hgap operand rest hsplit operands left heq ih =>
      rw [heq] at ih
      have hrest := ih h
      have htext : c :: more = (c :: more.takeWhile isGap) ++ (operand ++ rest) := by
        rw [append_of_splitOperand? hsplit, List.cons_append, List.takeWhile_append_dropWhile]
      rw [htext]
      refine .operand (List.cons_ne_nil _ _) ?_ (derivesOperand_of_splitOperand? hsplit) hrest
      rintro b (_ | ⟨_, hb⟩)
      · exact hgap
      · exact List.all_eq_true.1 List.all_takeWhile b hb
  | case4 => exact .done h

theorem operandsOf_suffix (cs : List Char) : (operandsOf cs).2 <:+ cs := by
  fun_induction operandsOf cs with
  | case1 => exact List.suffix_rfl
  | case2 => exact List.suffix_rfl
  | case3 c more hgap operand rest hsplit operands left heq ih =>
      rw [heq] at ih
      have hrest : rest <:+ more.dropWhile isGap :=
        append_of_splitOperand? hsplit ▸ List.suffix_append operand rest
      exact ((ih.trans hrest).trans (List.dropWhile_suffix isGap)).trans (List.suffix_cons c more)
  | case4 => exact List.suffix_rfl

/-- What is read behind a head is derived there. -/
theorem derivesRest_of_withOperands? {head : Head} {cs : List Char} {line : Line}
    (h : withOperands? head cs = some line) (hline : '\n' ∉ cs) :
    ∃ operands comment, DerivesRest cs operands comment ∧ line = ⟨head, operands, nonempty? comment⟩ := by
  obtain ⟨comment, hending, rfl⟩ := withOperands?_eq_some h
  have hleft : '\n' ∉ (operandsOf cs).2 := fun hmem => hline ((operandsOf_suffix cs).subset hmem)
  exact ⟨_, comment, derivesRest_of_operandsOf (derivesEnd_of_ending? hending hleft), rfl⟩

/-! ## Heads -/

theorem commentText_mk (head : Head) (operands : List String) (comment : List Char) :
    commentText ⟨head, operands, nonempty? comment⟩ = comment := by
  cases comment with
  | nil => rfl
  | cons c comment => exact String.toList_ofList

theorem derivesOpcode_splitOpcode (cs : List Char) :
    ∃ text, DerivesOpcode text (splitOpcode cs).1 ∧ cs = text ++ (splitOpcode cs).2 := by
  cases cs with
  | nil => exact ⟨[], .absent, rfl⟩
  | cons c cs =>
      rw [splitOpcode]
      split
      · rename_i hc
        refine ⟨c :: cs.takeWhile isAlnum, .present (by simp [isMnemonic, hc]), ?_⟩
        rw [List.cons_append, List.takeWhile_append_dropWhile]
      · exact ⟨[], .absent, rfl⟩

theorem code?_of_isMnemonic {text behind : List Char} (htext : isMnemonic text = true)
    (hbehind : AtBoundary behind) (label : Option String) :
    code? label (text ++ behind) = withOperands? (.code label (some (String.ofList text))) behind := by
  obtain ⟨c, run, rfl, hc, hrun⟩ := ne_nil_of_isMnemonic htext
  have hstop : StopsAt isAlnum behind := by
    intro d hd
    cases halnum : isAlnum d with
    | false => rfl
    | true =>
        have hboundary := not_boundary_of_isAtomChar (isAtomChar_of_isAlnum halnum)
        rw [hbehind d hd] at hboundary
        cases hboundary
  rw [code?_eq, List.cons_append, splitOpcode, if_pos hc]
  simp only [takeWhile_append_of_stopsAt hrun hstop, dropWhile_append_of_stopsAt hrun hstop]

theorem splitOpcode_of_not_alpha {cs : List Char} (h : StopsAt Char.isAlpha cs) :
    splitOpcode cs = (none, cs) := by
  cases cs with
  | nil => rfl
  | cons c cs =>
      have hc : c.isAlpha = false := h c rfl
      rw [splitOpcode, if_neg (by simp [hc])]

theorem AtBoundary.not_alpha {cs : List Char} (h : AtBoundary cs) : StopsAt Char.isAlpha cs := by
  intro c hc
  cases halpha : c.isAlpha with
  | false => rfl
  | true =>
      have hboundary := not_boundary_of_isAtomChar (isAtomChar_of_isAlnum (isAlnum_of_isAlpha halpha))
      rw [h c hc] at hboundary
      cases hboundary

theorem code?_of_atBoundary {cs : List Char} (h : AtBoundary cs) (label : Option String) :
    code? label cs = withOperands? (.code label none) cs := by
  rw [code?_eq, splitOpcode_of_not_alpha h.not_alpha]

theorem isAtomChar_of_isLabelChar {c : Char} (h : isLabelChar c = true) : isAtomChar c = true := by
  simp only [isLabelChar, Bool.or_eq_true] at h
  rcases h with h | h <;> simp [isAtomChar, h]

theorem splitLabel?_of_isLabelName {name : List Char} (h : isLabelName name = true) (rest : List Char) :
    splitLabel? (name ++ ':' :: rest) = some (String.ofList name, rest) := by
  cases name with
  | nil => cases h
  | cons c name =>
      simp only [isLabelName, Bool.and_eq_true, List.all_eq_true] at h
      have hstop : StopsAt isLabelChar (':' :: rest) := by
        intro d hd
        cases hd
        decide
      simp only [List.cons_append, splitLabel?, h.1, if_true, takeWhile_append_of_stopsAt h.2 hstop,
        dropWhile_append_of_stopsAt h.2 hstop]

/-- No colon stands behind the characters of a label where a boundary does. -/
theorem splitLabel?_of_atBoundary {run rest : List Char} (hrun : ∀ c ∈ run, isLabelChar c = true)
    (hrest : AtBoundary rest) : splitLabel? (run ++ rest) = none := by
  cases hsplit : splitLabel? (run ++ rest) with
  | none => rfl
  | some found =>
      obtain ⟨name, hname, -, htext⟩ := splitLabel?_eq_some hsplit
      have hword : ∀ c ∈ name, isBoundary c = false := fun c hc =>
        not_boundary_of_isAtomChar (isAtomChar_of_isLabelChar (isLabelChar_of_isLabelName hname c hc))
      have hcolon : ':' ∉ run := fun hmem => absurd (hrun ':' hmem) (by decide)
      exact absurd htext.symm (append_ne_of_atBoundary hword (by decide) hcolon hrest)

/-! ## What is read is derived -/

theorem derives_of_code? {front cs : List Char} {label : Option String} {line : Line}
    (hfront : DerivesLabel front label) (hline : '\n' ∉ cs) (h : code? label cs = some line) :
    Derives (front ++ cs) line := by
  obtain ⟨text, htext, hcs⟩ := derivesOpcode_splitOpcode cs
  rw [code?_eq] at h
  have hrest : '\n' ∉ (splitOpcode cs).2 := fun hmem => hline (hcs ▸ List.mem_append_right _ hmem)
  obtain ⟨operands, comment, hderives, rfl⟩ := derivesRest_of_withOperands? h hrest
  have hwhole := Derives.line (.code hfront htext) hderives
  rwa [List.append_assoc, ← hcs] at hwhole

/-- The last blank behind the label is the gap of the first operand. -/
theorem derives_of_bare? {name rest : List Char} {line : Line} (hname : isLabelName name = true)
    (hline : '\n' ∉ rest) (h : bare? (some (String.ofList name)) rest = some line) :
    Derives (name ++ ':' :: rest) line := by
  unfold bare? at h
  split at h
  · cases h
  · rename_i blank hblank
    obtain ⟨blanks, hblanks⟩ := List.getLast?_eq_some_iff.1 hblank
    have hrest : rest = blanks ++ blank :: dropBlanks rest := by
      rw [List.append_cons, ← hblanks, takeWhile_append_dropBlanks]
    have hbehind : '\n' ∉ blank :: dropBlanks rest := fun hmem =>
      hline (hrest ▸ List.mem_append_right _ hmem)
    have hall : AllBlank blanks := fun c hc =>
      allBlank_takeWhile rest c (hblanks ▸ List.mem_append_left _ hc)
    obtain ⟨operands, comment, hderives, rfl⟩ := derivesRest_of_withOperands? h hbehind
    have hwhole := Derives.line (.code (.present hname hall) .absent) hderives
    rwa [List.append_nil, List.append_assoc, List.cons_append, ← hrest] at hwhole

theorem derives_of_directive? {cs : List Char} {line : Line} (hline : '\n' ∉ cs)
    (hplain : PlainDirective cs) (h : directive? cs = some line) : Derives cs line := by
  unfold directive? at h
  split at h
  · cases h
  · rename_i text rest hfind
    obtain ⟨word, hword, hsplit⟩ := List.exists_of_findSome?_eq_some hfind
    have hspells := spells_of_splitWord? hsplit
    obtain rfl := splitWord?_append hsplit
    have hrest : '\n' ∉ rest := fun hmem => hline (List.mem_append_right _ hmem)
    obtain ⟨operands, comment, hderives, rfl⟩ := derivesRest_of_withOperands? h hrest
    have hascii := hplain word text rest operands comment rfl hword hspells hderives
    rw [lowerChars_of_spells (letters_of_mem_directiveWords hword) hascii hspells]
    exact .line (.directive hword hspells) hderives

theorem derives_of_labelled? {cs : List Char} {line : Line} (hline : '\n' ∉ cs)
    (h : labelled? cs = some line) : Derives cs line := by
  unfold labelled? at h
  split at h
  · cases h
  · rename_i label rest hsplit
    obtain ⟨name, hname, rfl, rfl⟩ := splitLabel?_eq_some hsplit
    have hrest : '\n' ∉ rest := fun hmem => hline (by simp [hmem])
    rcases Option.or_eq_some_iff.1 h with hcode | ⟨-, hbare⟩
    · have hdrop : '\n' ∉ dropBlanks rest := fun hmem => hrest (dropBlanks_subset rest hmem)
      have hwhole := derives_of_code? (.present hname (allBlank_takeWhile rest)) hdrop hcode
      rwa [List.append_assoc, List.cons_append, takeWhile_append_dropBlanks] at hwhole
    · exact derives_of_bare? hname hrest hbare

theorem bare?_of_stopsAt {cs : List Char} (h : StopsAt isBlank cs) (label : Option String) :
    bare? label cs = none := by
  have hnone : cs.takeWhile isBlank = [] := by
    cases cs with
    | nil => rfl
    | cons c cs => exact List.takeWhile_cons_of_neg (by simp [h c rfl])
  rw [bare?, hnone, List.getLast?_nil]

/-- What is read of a line that starts with no blank is derived from it. -/
theorem derives_of_ofChars? {cs : List Char} {line : Line} (hcs : StopsAt isBlank cs)
    (hline : '\n' ∉ cs) (hplain : PlainDirective cs) (h : ofChars? cs = some line) :
    Derives cs line := by
  simp only [ofChars?, dropBlanks_of_stopsAt hcs, bare?_of_stopsAt hcs, Option.or_none,
    Option.or_eq_some_iff] at h
  rcases h with (h | ⟨-, h⟩) | ⟨-, h⟩
  · exact derives_of_directive? hline hplain h
  · exact derives_of_labelled? hline h
  · exact derives_of_code? .absent hline h

/-! ## What is derived is read -/

/-- Two lines with the same head and operands: the one with the longer comment outranks the other. -/
theorem outranks_of_comment {head : Head} {operands : List String} {comment full : List Char}
    (h : comment <+: full) :
    Outranks ⟨head, operands, nonempty? full⟩ ⟨head, operands, nonempty? comment⟩ :=
  .comment rfl rfl (by rwa [commentText_mk, commentText_mk])

/-- A word that is the first operand behind a label may be read as the mnemonic.  If not, the blank in
front of it is given back. -/
theorem labelled?_of_operand {name blanks gap text rest comment : List Char} {operands : List String}
    (hname : isLabelName name = true) (hblanks : AllBlank blanks) (hne : gap ≠ [])
    (hgap : ∀ c ∈ gap, isGap c = true) (htext : DerivesOperand text rest)
    (hrest : DerivesRest rest operands comment) (hline : '\n' ∉ gap ++ (text ++ rest)) :
    ∃ line, labelled? (name ++ ':' :: (blanks ++ (gap ++ (text ++ rest)))) = some line ∧
      Outranks line ⟨.code (some (String.ofList name)) none, String.ofList text :: operands,
        nonempty? comment⟩ := by
  have hfront : AllBlank (blanks ++ gap) := by
    intro c hc
    rcases List.mem_append.1 hc with hc | hc
    · exact hblanks c hc
    · exact isBlank_of_isGap (hgap c hc)
  have hstops := stopsAt_of_isToken htext.isToken rest
  have hdrop : dropBlanks (blanks ++ (gap ++ (text ++ rest))) = text ++ rest := by
    rw [← List.append_assoc, dropBlanks_append hfront, dropBlanks_of_stopsAt hstops]
  rw [labelled?, splitLabel?_of_isLabelName hname]
  simp only [hdrop]
  cases hcode : code? (some (String.ofList name)) (text ++ rest) with
  | some line =>
      refine ⟨line, rfl, ?_⟩
      rw [code?_eq] at hcode
      cases hopcode : (splitOpcode (text ++ rest)).1 with
      | some opcode =>
          obtain ⟨_, -, rfl⟩ := withOperands?_eq_some hcode
          rw [hopcode]
          exact .opcode rfl rfl
      | none =>
          -- Without a mnemonic the operand stands right behind the label.
          obtain ⟨c, more, htoken, hc⟩ := not_boundary_of_isToken htext.isToken
          rw [htoken, List.cons_append, splitOpcode] at hcode hopcode
          split at hopcode
          · cases hopcode
          · rename_i halpha
            rw [if_neg halpha, withOperands?_of_not_boundary hc] at hcode
            cases hcode
  | none =>
      obtain ⟨init, last, rfl⟩ : ∃ init last, gap = init ++ [last] :=
        ⟨_, _, (List.dropLast_concat_getLast hne).symm⟩
      have hderives : DerivesRest (last :: (text ++ rest)) (String.ofList text :: operands) comment :=
        .operand (List.cons_ne_nil last []) (by simpa using hgap last (by simp)) htext hrest
      obtain ⟨full, hfull, hread⟩ := withOperands?_of_derivesRest hderives fun hmem => hline (by
        rw [List.append_assoc]
        exact List.mem_append_right _ hmem)
      refine ⟨_, ?_, outranks_of_comment hfull⟩
      rw [Option.none_or, bare?, hdrop, ← List.append_assoc, takeWhile_append_of_stopsAt hfront hstops,
        ← List.append_assoc, List.getLast?_concat]
      exact hread _

/-- What is derived behind a label is read behind it. -/
theorem labelled?_outranks {name blanks text behind comment : List Char} {opcode : Option String}
    {operands : List String} (hname : isLabelName name = true) (hblanks : AllBlank blanks)
    (htext : DerivesOpcode text opcode) (hrest : DerivesRest behind operands comment)
    (hline : '\n' ∉ behind) :
    ∃ line, labelled? (name ++ ':' :: (blanks ++ (text ++ behind))) = some line ∧
      Outranks line ⟨.code (some (String.ofList name)) opcode, operands, nonempty? comment⟩ := by
  cases htext with
  | present hword =>
      obtain ⟨full, hfull, hread⟩ := withOperands?_of_derivesRest hrest hline
      have hstops := stopsAt_of_isToken (.inl (isAtom_of_isMnemonic hword)) behind
      refine ⟨_, ?_, outranks_of_comment hfull⟩
      rw [labelled?, splitLabel?_of_isLabelName hname]
      simp only [dropBlanks_append hblanks, dropBlanks_of_stopsAt hstops,
        code?_of_isMnemonic hword hrest.atBoundary, hread, Option.some_or]
  | absent =>
      cases hrest with
      | operand hne hgap hoperand hrest =>
          exact labelled?_of_operand hname hblanks hne hgap hoperand hrest hline
      | done hend =>
          have hdrop := hend.dropBlanks
          obtain ⟨full, hfull, hread⟩ := withOperands?_of_derivesRest (.done hdrop) fun hmem =>
            hline (dropBlanks_subset behind hmem)
          refine ⟨_, ?_, outranks_of_comment hfull⟩
          rw [labelled?, splitLabel?_of_isLabelName hname]
          simp only [List.nil_append, dropBlanks_append hblanks, code?_of_atBoundary hdrop.atBoundary,
            hread, Option.some_or]

/-- What is derived without a label is read without one. -/
theorem code?_outranks {text behind comment : List Char} {opcode : Option String}
    {operands : List String} (htext : DerivesOpcode text opcode)
    (hrest : DerivesRest behind operands comment) (hline : '\n' ∉ behind) :
    ∃ line, labelled? (text ++ behind) = none ∧ code? none (text ++ behind) = some line ∧
      Outranks line ⟨.code none opcode, operands, nonempty? comment⟩ := by
  obtain ⟨full, hfull, hread⟩ := withOperands?_of_derivesRest hrest hline
  have hrun : ∀ c ∈ text, isLabelChar c = true := by
    cases htext with
    | absent => simp
    | present hword =>
        intro c hc
        simp [isLabelChar, isAlnum_of_isMnemonic hword c hc]
  refine ⟨_, ?_, ?_, outranks_of_comment hfull⟩
  · rw [labelled?, splitLabel?_of_atBoundary hrun hrest.atBoundary]
  · cases htext with
    | absent => rw [List.nil_append, code?_of_atBoundary hrest.atBoundary, hread]
    | present hword => rw [code?_of_isMnemonic hword hrest.atBoundary, hread]

/-- Wherever a line is derived from a text that starts with no blank, a line that outranks it is read. -/
theorem ofChars?_outranks {cs : List Char} {other : Line} (hcs : StopsAt isBlank cs) (hline : '\n' ∉ cs)
    (hplain : PlainDirective cs) (h : Derives cs other) :
    ∃ line, ofChars? cs = some line ∧ Outranks line other := by
  simp only [ofChars?, dropBlanks_of_stopsAt hcs, bare?_of_stopsAt hcs, Option.or_none]
  cases h with
  | @line front behind comment head operands hhead hrest =>
      have hbehind : '\n' ∉ behind := fun hmem => hline (List.mem_append_right _ hmem)
      cases hhead with
      | directive hword hspells =>
          obtain ⟨full, hfull, hread⟩ := withOperands?_of_derivesRest hrest hbehind
          have hascii := hplain _ _ _ _ _ rfl hword hspells hrest
          refine ⟨_, ?_, outranks_of_comment hfull⟩
          rw [directive?_of_spells hword hspells hascii, hread, Option.some_or, Option.some_or]
      | @code front text label opcode hlabel htext =>
          cases hdirective : directive? (front ++ text ++ behind) with
          | some line =>
              obtain ⟨word, hword⟩ := directive?_head hdirective
              exact ⟨line, rfl, .directive hword rfl⟩
          | none =>
              rw [Option.none_or]
              cases hlabel with
              | absent =>
                  rw [List.nil_append]
                  obtain ⟨line, hlabelled, hcode, houtranks⟩ := code?_outranks htext hrest hbehind
                  exact ⟨line, by rw [hlabelled, hcode, Option.none_or], houtranks⟩
              | @present name blanks hname hblanks =>
                  obtain ⟨line, hlabelled, houtranks⟩ :=
                    labelled?_outranks hname hblanks htext hrest hbehind
                  refine ⟨line, ?_, houtranks⟩
                  rw [List.append_assoc, List.append_assoc, List.cons_append, hlabelled, Option.some_or]

/-! ## The line that is read -/

theorem Derives.comment_eq {cs : List Char} {line : Line} (h : Derives cs line) :
    line.comment = nonempty? (commentText line) := by
  cases h
  rw [commentText_mk]

theorem Outranks.antisymm {cs : List Char} {line other : Line} (hline : Derives cs line)
    (hother : Derives cs other) (h : Outranks line other) (h' : Outranks other line) : line = other := by
  cases h with
  | directive hdirective hcode =>
      cases h' with
      | directive hother _ => rw [hcode] at hother; cases hother
      | opcode _ hnone => rw [hdirective] at hnone; cases hnone
      | comment hsame _ _ => rw [hdirective, hcode] at hsame; cases hsame
  | opcode hsome hnone =>
      cases h' with
      | directive hother _ => rw [hnone] at hother; cases hother
      | opcode hother _ => rw [hnone] at hother; cases hother
      | comment hsame _ _ => rw [hsome, hnone] at hsame; cases hsame
  | comment hhead hoperands hcomment =>
      cases h' with
      | directive hdirective hcode => rw [hdirective, hcode] at hhead; cases hhead
      | opcode hsome hnone => rw [hsome, hnone] at hhead; cases hhead
      | comment _ _ hback =>
          have htexts := hcomment.eq_of_length (Nat.le_antisymm hcomment.length_le hback.length_le)
          have hcomments : line.comment = other.comment := by
            rw [hline.comment_eq, hother.comment_eq, htexts]
          obtain ⟨head, operands, comment⟩ := line
          rw [← show other.head = head from hhead, ← show other.operands = operands from hoperands,
            show comment = other.comment from hcomments]

/-- The line that is read is the derived line that outranks all others. -/
theorem ofChars?_eq_some_iff {cs : List Char} {line : Line} (hcs : StopsAt isBlank cs)
    (hline : '\n' ∉ cs) (hplain : PlainDirective cs) :
    ofChars? cs = some line ↔ Derives cs line ∧ ∀ other, Derives cs other → Outranks line other := by
  constructor
  · intro h
    refine ⟨derives_of_ofChars? hcs hline hplain h, fun other hother => ?_⟩
    obtain ⟨found, hfound, houtranks⟩ := ofChars?_outranks hcs hline hplain hother
    cases h.symm.trans hfound
    exact houtranks
  · rintro ⟨hderives, hfirst⟩
    obtain ⟨found, hfound, houtranks⟩ := ofChars?_outranks hcs hline hplain hderives
    have hread := derives_of_ofChars? hcs hline hplain hfound
    rw [hfound, (hfirst found hread).antisymm hderives hread houtranks]

end Line

end ChipAsm
