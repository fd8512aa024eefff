import ChipAsm.Proofs.Binding
import ChipAsm.Proofs.CodeLine
import ChipAsm.Proofs.Faults
import ChipAsm.Proofs.Grammar
import ChipAsm.Proofs.Names

/-!
# What becomes of a directive

The word of a directive is recognised without regard to case, and then put into lower case.  The two
agree on ASCII letters.  But a word may also be spelled with a long s, a dotless i or a dotted capital
I, and none of these becomes an ASCII letter in lower case (`lowerChars_of_not_ascii`).

A reader knows three words.  A directive with one of them is performed or reported: it defines a
constant, binds an alias or starts a section (`Reader.Performs`), or an error is recorded at its line.
A directive of any other spelling is passed over without a remark.
-/

namespace ChipAsm

open ChipAsm.Text ChipAsm.Token ChipAsm.Line

/-! ## The word of a directive -/

theorem mem_lowerAfter {cs : List Char} {c d : Char} (hc : c ∈ cs)
    (hd : ∀ before after, d ∈ lowerAt before c after) : ∀ before, d ∈ lowerAfter before cs := by
  induction cs with
  | nil => cases hc
  | cons c' cs ih =>
      intro before
      rw [lowerAfter, List.mem_append]
      rcases List.mem_cons.1 hc with rfl | hc
      · exact .inl (hd before cs)
      · exact .inr (ih hc _)

/-- The lower case of a letter that stands for an ASCII letter and is none is not ASCII. -/
theorem lowerAt_of_not_ascii {letter c : Char} (hletter : 97 ≤ letter.toNat ∧ letter.toNat < 123)
    (h : foldsTo letter c = true) (hc : 128 ≤ c.toNat) :
    ∃ d, 128 ≤ d.toNat ∧ ∀ before after, d ∈ lowerAt before c after := by
  have hupper := of_forall_ofNat 123 (P := fun w => 97 ≤ w.toNat → w.toUpper.toNat < 128) (by decide)
    hletter.2 hletter.1
  simp only [foldsTo, Bool.or_eq_true, Bool.and_eq_true, beq_iff_eq] at h
  rcases h with ((rfl | rfl) | ⟨-, rfl | rfl⟩) | ⟨-, rfl⟩
  · omega
  · omega
  · exact ⟨'\u0307', by decide, fun before after => by simp [lowerAt]⟩
  · exact ⟨'ı', by decide, fun before after => by
      have hlower : lowerChar 'ı' = 'ı' := by decide +kernel
      simp [lowerAt, hlower]⟩
  · exact ⟨'ſ', by decide, fun before after => by
      have hlower : lowerChar 'ſ' = 'ſ' := by decide +kernel
      simp [lowerAt, hlower]⟩

theorem lowerChars_of_not_ascii {word text : List Char}
    (hword : ∀ w ∈ word, 97 ≤ w.toNat ∧ w.toNat < 123) (h : Spells word text)
    (htext : ∃ c ∈ text, 128 ≤ c.toNat) : ∃ d ∈ lowerChars text, 128 ≤ d.toNat := by
  obtain ⟨c, hc, hascii⟩ := htext
  obtain ⟨w, hw, hfold⟩ := h.exists_foldsTo c hc
  obtain ⟨d, hd, hmem⟩ := lowerAt_of_not_ascii (hword w hw) hfold hascii
  exact ⟨d, mem_lowerAfter hc hmem [], hd⟩

/-- The lower case of a word of a directive is one that a reader knows if and only if the word is
spelled in ASCII. -/
theorem mem_known_iff {word text : List Char} (hword : word ∈ directiveWords) (h : Spells word text) :
    String.ofList (lowerChars text) ∈ ["alias", "define", "section"] ↔
      ∀ c ∈ text, c.toNat < 128 := by
  have hletters := letters_of_mem_directiveWords hword
  constructor
  · intro hmem c hc
    by_contra hge
    obtain ⟨d, hd, hascii⟩ := lowerChars_of_not_ascii hletters h ⟨c, hc, Nat.le_of_not_lt hge⟩
    have hplain : (["alias", "define", "section"].all fun s =>
        s.toList.all fun c => decide (c.toNat < 128)) = true := by
      decide
    have hlt := List.all_eq_true.1 (List.all_eq_true.1 hplain _ hmem) d
      (by rwa [String.toList_ofList])
    exact absurd (of_decide_eq_true hlt) (Nat.not_lt_of_le hascii)
  · intro hascii
    have hknown : ∀ word ∈ directiveWords, String.ofList word ∈ ["alias", "define", "section"] := by
      decide
    rw [lowerChars_of_spells hletters hascii h]
    exact hknown word hword

/-- What is read behind an optional label is no directive. -/
theorem head_of_code? {label : Option String} {cs : List Char} {line : Line}
    (h : code? label cs = some line) : ∃ opcode, line.head = .code label opcode := by
  obtain ⟨comment, -, rfl⟩ := withOperands?_eq_some (code?_eq label cs ▸ h)
  exact ⟨_, rfl⟩

theorem head_of_bare? {label : Option String} {cs : List Char} {line : Line}
    (h : bare? label cs = some line) : line.head = .code label none := by
  rw [bare?] at h
  split at h
  · cases h
  · obtain ⟨comment, -, rfl⟩ := withOperands?_eq_some h
    rfl

/-- A directive is read from a text that spells one of the words. -/
theorem spelled_of_ofChars? {cs : List Char} {line : Line} {word : String}
    (hcs : StopsAt isBlank cs) (h : ofChars? cs = some line) (hhead : line.head = .directive word) :
    ∃ keyword ∈ directiveWords, ∃ spelled rest, cs = spelled ++ rest ∧ Spells keyword spelled ∧
      word = String.ofList (lowerChars spelled) := by
  simp only [ofChars?, dropBlanks_of_stopsAt hcs, Option.or_eq_some_iff] at h
  rcases h with ((h | ⟨-, h⟩) | ⟨-, h⟩) | ⟨-, h⟩
  · rw [directive?] at h
    split at h
    · cases h
    · rename_i spelled rest hfind
      obtain ⟨keyword, hkeyword, hsplit⟩ := List.exists_of_findSome?_eq_some hfind
      obtain ⟨comment, -, rfl⟩ := withOperands?_eq_some h
      cases hhead
      exact ⟨keyword, hkeyword, spelled, rest, (splitWord?_append hsplit).symm,
        spells_of_splitWord? hsplit, rfl⟩
  · rw [labelled?] at h
    split at h
    · cases h
    · rcases Option.or_eq_some_iff.1 h with h | ⟨-, h⟩
      · obtain ⟨opcode, hcode⟩ := head_of_code? h
        cases hhead.symm.trans hcode
      · cases hhead.symm.trans (head_of_bare? h)
  · obtain ⟨opcode, hcode⟩ := head_of_code? h
    cases hhead.symm.trans hcode
  · cases hhead.symm.trans (head_of_bare? h)

/-! ## Performing a directive -/

/-- What a directive with the given word, operands and comment does to a reader. -/
inductive Reader.Performs (r r' : Reader) : String → List String → Option String → Prop where
  /-- A constant of a new name is added to the current section. -/
  | constant {name value : String} {comment : Option String} (fresh : name ∉ r.symbolNames)
    (current : r'.current = r.current.addSymbol (.constant r.current.ordinal name value))
    (names : r'.symbolNames = r.symbolNames ++ [name]) : Performs r r' "define" [name, value] comment
  /-- A name is bound in the current section, and the alias of a device is kept as an instruction. -/
  | binding {name target : String} {comment : Option String} (names : name ∈ r'.aliasNames)
    (bound : ∀ other, r'.current.alias? other =
      if name = other then some target else r.current.alias? other)
    (lines : r'.current.lines = r.current.lines ++
      if isDevice target then [⟨"alias", [name, target], r.line, r.current.size, comment⟩] else []) :
    Performs r r' "alias" [name, target] comment
  /-- The current section is closed, and another one is started. -/
  | opening {name : String} {words : List String} {comment : Option String}
    (closed : r'.closed = r.close.sections)
    (current : r'.current = { name, ordinal := r.current.ordinal + 1, required := requiredIn words })
    (declared : r'.declared = true) :
    Performs r r' "section" (name :: words) comment

namespace Reader

variable {r : Reader} {operands : List String} {comment : Option String}

theorem performs_define (h : r.fault? ⟨.directive "define", operands, comment⟩ = none) :
    r.Performs (r.take ⟨.directive "define", operands, comment⟩) "define" operands comment := by
  rcases operands with _ | ⟨name, _ | ⟨value, _ | ⟨_, _⟩⟩⟩
  · cases h
  · cases h
  · have hfresh : (Symbol.constant r.current.ordinal name value).name ∉ r.symbolNames := by
      intro htaken
      simp only [Symbol.name] at htaken
      simp [fault?, htaken] at h
    have htake : r.take ⟨.directive "define", [name, value], comment⟩ =
        r.addSymbol (.constant r.current.ordinal name value) := rfl
    rw [htake, addSymbol, if_neg hfresh]
    exact .constant hfresh rfl rfl
  · cases h

theorem performs_alias (hcounts : r.Counts)
    (h : r.fault? ⟨.directive "alias", operands, comment⟩ = none) :
    r.Performs (r.take ⟨.directive "alias", operands, comment⟩) "alias" operands comment := by
  rcases operands with _ | ⟨name, _ | ⟨target, _ | ⟨_, _⟩⟩⟩
  · cases h
  · cases h
  · have hnames := r.take_aliasNames ⟨.directive "alias", [name, target], comment⟩
    have habsorbs : r.Absorbs ⟨.directive "alias", [name, target], comment⟩ (r.take _) :=
      take_absorbs rfl
    have hcurrent := congrArg Reader.current habsorbs.eq
    refine .binding ?_ (fun other => ?_) ?_
    · rw [hnames]
      exact mem_addName.2 (.inr rfl)
    · rw [hcurrent, Section.alias?_eq, Section.alias?_eq]
      exact findSome?_bindKey ..
    · have hstatement : (⟨.directive "alias", [name, target], comment⟩ : Line).statement =
          .binding name target := rfl
      rw [hcurrent, ← hcounts]
      simp only [absorb, Section.absorb, SourceLine.instruction?, hstatement, Statement.instruction?]
      cases isDevice target with
      | true => rfl
      | false => rfl
  · cases h

theorem performs_section (h : r.fault? ⟨.directive "section", operands, comment⟩ = none) :
    r.Performs (r.take ⟨.directive "section", operands, comment⟩) "section" operands comment := by
  cases operands with
  | nil => cases h
  | cons name words =>
      have hopening : (⟨.directive "section", name :: words, comment⟩ : Line).statement.opening? =
          some (name, requiredIn words) := rfl
      obtain ⟨d, -, htake⟩ := take_opening (r := r) hopening
      rw [htake]
      exact .opening rfl (by rw [start, close_current]) rfl

/-- A directive with a known word is performed if nothing is wrong with it. -/
theorem performs_of_fault? {line : Line} {word : String} (hcounts : r.Counts)
    (hhead : line.head = .directive word) (hword : word ∈ ["alias", "define", "section"])
    (h : r.fault? line = none) :
    r.Performs (r.take line) word line.operands line.comment := by
  obtain ⟨head, operands, comment⟩ := line
  obtain rfl : head = .directive word := hhead
  simp only [List.mem_cons, List.not_mem_nil, or_false] at hword
  rcases hword with rfl | rfl | rfl
  · exact performs_alias hcounts h
  · exact performs_define h
  · exact performs_section h

/-- A directive with any other word changes nothing. -/
theorem take_of_unknown {line : Line} {word : String} (hhead : line.head = .directive word)
    (hword : word ∉ ["alias", "define", "section"]) : r.take line = r := by
  simp only [List.mem_cons, List.not_mem_nil, or_false, not_or] at hword
  simp [take, hhead, hword]

/-- The number of the line does not matter to what a directive does. -/
theorem Performs.atLine {r' : Reader} {word : String} (h : r.Performs r' word operands comment)
    (n : Nat) : r.Performs (r'.atLine n) word operands comment := by
  cases h with
  | constant fresh current names => exact .constant fresh current names
  | binding names bound lines => exact .binding names bound lines
  | opening closed current declared => exact .opening closed current declared

/-! ## Lines of a source -/

variable {source : String} {n : Nat} {text : List Char}

theorem before_line (h : (linesOf source)[n]? = some text) : (before source n).line = n := by
  have hlt := (List.getElem?_eq_some_iff.1 h).1
  rw [before, foldl_step_line, List.length_take, Nat.min_eq_left (Nat.le_of_lt hlt), Nat.zero_add]

theorem before_succ {line : Line} (h : (linesOf source)[n]? = some text)
    (hline : Line.ofText? text = some line) :
    before source (n + 1) = ((before source n).take line).atLine (n + 1) := by
  have hnumber := congrArg Reader.line (step_eq (before source n) text)
  rw [step_of_some hline, before_line h] at hnumber
  rw [before_step h, step_of_some hline]
  exact congrArg ((before source n).take line).atLine hnumber

/-- The errors that are recorded up to a line are errors of the source. -/
theorem before_errors (source : String) (n : Nat) :
    (before source n).diagnostics.errors <+: (Reading.of source).diagnostics.errors := by
  have hread : (Reading.of source).diagnostics.errors =
      (((linesOf source).drop n).foldl step (before source n)).diagnostics.errors := by
    rw [Reading.of, reading, read, close_diagnostics, before, ← List.foldl_append,
      List.take_append_drop]
  rw [hread]
  exact foldl_errors _ _

end Reader

/-- The word of a directive is one of three if and only if it is spelled in ASCII.  Then an error is
recorded at its line, or the directive is performed.  Any other directive is passed over. -/
theorem directive_performed_or_ignored {source : String} {n : Nat} {text : List Char} {line : Line}
    {word : String} (htext : (linesOf source)[n]? = some text)
    (hline : Line.ofText? text = some line) (hhead : line.head = .directive word) :
    ∃ keyword ∈ directiveWords, ∃ spelled rest, stripChars text = spelled ++ rest ∧
      Spells keyword spelled ∧ word = String.ofList (lowerChars spelled) ∧
      (word ∈ ["alias", "define", "section"] ↔ ∀ c ∈ spelled, c.toNat < 128) ∧
      ((∀ c ∈ spelled, c.toNat < 128) →
        word = String.ofList keyword ∧
        ((∃ problem, ⟨problem, some (n : Int)⟩ ∈ (Reading.of source).diagnostics.errors) ∨
          (Reader.before source n).Performs (Reader.before source (n + 1)) word line.operands
            line.comment)) ∧
      ((∃ c ∈ spelled, 128 ≤ c.toNat) →
        Reader.before source (n + 1) = { Reader.before source n with line := n + 1 }) := by
  obtain ⟨hread, hstops⟩ := stopsAt_of_ofText? hline
  obtain ⟨keyword, hkeyword, spelled, rest, htext', hspells, hword⟩ :=
    spelled_of_ofChars? hstops hread hhead
  have hknown : word ∈ ["alias", "define", "section"] ↔ ∀ c ∈ spelled, c.toNat < 128 :=
    hword ▸ mem_known_iff hkeyword hspells
  have hnext := Reader.before_succ htext hline
  refine ⟨keyword, hkeyword, spelled, rest, htext', hspells, hword, hknown, fun hascii => ⟨?_, ?_⟩,
    fun hother => ?_⟩
  · rw [hword, lowerChars_of_spells (letters_of_mem_directiveWords hkeyword) hascii hspells]
  · cases hfault : (Reader.before source n).fault? line with
    | some problem =>
        have herrors := (Reader.before source n).take_fault line
        rw [hfault, Reader.errorsWith, Reader.before_line htext] at herrors
        refine .inl ⟨problem, (Reader.before_errors source (n + 1)).subset ?_⟩
        rw [hnext, Reader.atLine, herrors]
        exact List.mem_append_right _ (List.mem_singleton_self _)
    | none =>
        rw [hnext]
        have hcounts : (Reader.before source n).Counts := Reader.Counts.foldl _ rfl
        exact .inr ((Reader.performs_of_fault? hcounts hhead (hknown.2 hascii) hfault).atLine _)
  · have hunknown : word ∉ ["alias", "define", "section"] := by
      obtain ⟨c, hc, hge⟩ := hother
      intro hmem
      exact absurd (hknown.1 hmem c hc) (Nat.not_lt_of_le hge)
    rw [hnext, Reader.take_of_unknown hhead hunknown]
    rfl

/-- The second line binds an alias, with its word in mixed case. -/
def mixedCase : String := "yield\nAliaS pump d0 # hot"

theorem directive_performed_or_ignored_mixedCase :
    (linesOf mixedCase)[1]? = some "AliaS pump d0 # hot".toList ∧
    Line.ofText? "AliaS pump d0 # hot".toList =
      some ⟨.directive "alias", ["pump", "d0"], some "hot"⟩ ∧
    (Reader.before mixedCase 1).Performs (Reader.before mixedCase 2) "alias" ["pump", "d0"]
      (some "hot") := by
  have htext : (linesOf mixedCase)[1]? = some "AliaS pump d0 # hot".toList := by decide +kernel
  have hline : Line.ofText? "AliaS pump d0 # hot".toList =
      some ⟨.directive "alias", ["pump", "d0"], some "hot"⟩ := by
    decide +kernel
  have hvalid : (Reading.of mixedCase).diagnostics.errors = [] := by decide +kernel
  obtain ⟨keyword, -, spelled, rest, -, -, -, hknown, hperformed, -⟩ :=
    directive_performed_or_ignored htext hline rfl
  refine ⟨htext, hline, ?_⟩
  rcases (hperformed (hknown.1 (by decide))).2 with ⟨problem, herror⟩ | hperforms
  · rw [hvalid] at herror
    cases herror
  · exact hperforms

/-- A directive that is spelled with a long s is of the grammar, and is passed over without an error. -/
theorem long_s_ignored :
    Line.ofText? "aliaſ pump d0".toList = some ⟨.directive "aliaſ", ["pump", "d0"], none⟩ ∧
      Reading.of "aliaſ pump d0" = {} := by
  decide +kernel

end ChipAsm
