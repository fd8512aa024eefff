import ChipAsm.Proofs.Emission
import ChipAsm.Proofs.Rereading
import ChipAsm.Proofs.Scoping

/-!
# Assembling the output again

A line of output is read back as the mnemonic and the operands that it was put together from: it is
no directive, because no mnemonic of the chip but `alias` is the word of one, and it has no label
(`ofText?_of_wellWritten`).  So the output is a source of one section that binds no name, with
an instruction for each line.

There is nothing left to replace in it.  Assembling it again gives the same lines, except that the
integers at relative places are made relative once more (`reassembly_relocates`).
-/

namespace ChipAsm

open ChipAsm.Text ChipAsm.Token ChipAsm.Number

/-! ## Lines are read back -/

theorem standard_not_directive :
    ∀ signature ∈ Table.standard.signatures,
      signature.mnemonic ≠ "section" ∧ signature.mnemonic ≠ "define" := by
  decide +kernel

theorem mnemonic_of_lookup {table : Table} {name : String} {signature : Signature}
    (h : table.lookup name = some signature) :
    signature ∈ table.signatures ∧ signature.mnemonic = lower name :=
  ⟨List.mem_of_find?_eq_some h, by simpa using List.find?_some h⟩

/-- A mnemonic of the chip other than `alias` is no directive. -/
theorem ofMnemonic_of_standard {opcode : String} {signature : Signature}
    (hlookup : Table.standard.lookup opcode = some signature) (halias : lower opcode ≠ "alias") :
    Head.ofMnemonic opcode = .code none (some opcode) := by
  obtain ⟨hmem, hmnemonic⟩ := mnemonic_of_lookup hlookup
  obtain ⟨hsection, hdefine⟩ := standard_not_directive signature hmem
  rw [hmnemonic] at hsection hdefine
  exact if_neg (by simp [halias, hsection, hdefine])

theorem stripChars_of_not_blank {cs : List Char} (hfirst : ∀ c ∈ cs.head?, isBlank c = false)
    (hlast : ∀ c ∈ cs.getLast?, isBlank c = false) : stripChars cs = cs := by
  have hfront : dropBlanks cs = cs := by
    cases cs with
    | nil => rfl
    | cons c cs => exact dropBlanks_cons_of_not_blank (hfirst c rfl)
  rw [stripChars, hfront]
  rcases List.eq_nil_or_concat cs with rfl | ⟨front, c, rfl⟩
  · rfl
  · have hc : isBlank c = false := hlast c (by simp)
    simp [dropBlanksEnd, dropBlanks_cons_of_not_blank hc]

theorem not_blank_of_getLast? {atoms : List (List Char)}
    (hatoms : ∀ atom ∈ atoms, Line.isAtom atom = true) :
    ∀ {first : List Char}, Line.isAtom first = true →
      ∀ c ∈ (first ++ atoms.flatMap (' ' :: ·)).getLast?, isBlank c = false := by
  induction atoms with
  | nil =>
      intro first hfirst c hc
      rw [List.flatMap_nil, List.append_nil] at hc
      exact Line.not_blank_of_isAtom hfirst (List.mem_of_getLast? hc)
  | cons atom atoms ih =>
      intro first hfirst c hc
      have hatom := hatoms atom (List.mem_cons_self ..)
      have hne : atom ++ atoms.flatMap (' ' :: ·) ≠ [] := by
        obtain ⟨d, rest, rfl, -⟩ := Line.head_of_isToken (.inl hatom)
        exact List.cons_ne_nil _ _
      have hsplit : first ++ (atom :: atoms).flatMap (' ' :: ·) =
          (first ++ [' ']) ++ (atom ++ atoms.flatMap (' ' :: ·)) := by simp
      rw [hsplit, List.getLast?_append_of_ne_nil _ hne] at hc
      exact ih (fun other hother => hatoms other (List.mem_cons_of_mem _ hother)) hatom c hc

/-- The line that a line of output is read back as. -/
def codeLine (line : String) : Line :=
  ⟨.code none (some (mnemonicOf line)), operandsIn line, none⟩

/-- The line is read back as its mnemonic and its operands. -/
theorem ofText?_of_wellWritten {line : String} {signature : Signature}
    (h : WellWritten .standard line signature) (halias : lower (mnemonicOf line) ≠ "alias") :
    Line.ofText? line.toList = some (codeLine line) := by
  have hatoms : ∀ atom ∈ (operandsIn line).map String.toList, Line.isAtom atom = true := by
    intro atom hatom
    obtain ⟨word, hword, rfl⟩ := List.mem_map.1 hatom
    exact isAtom_of_isFixed (h.fixed word hword)
  have hmnemonic := Line.isAtom_of_isMnemonic h.mnemonic
  have hchars : line.toList = (mnemonicOf line).toList ++
      ((operandsIn line).map String.toList).flatMap (' ' :: ·) := by
    rw [← toList_intercalate_words, ← h.text]
  obtain ⟨c, rest, hcs, hc⟩ : ∃ c rest, line.toList = c :: rest ∧ isBlank c = false := by
    obtain ⟨c, rest, hcs, -⟩ := Line.head_of_isToken (.inl hmnemonic)
    rw [hchars, hcs]
    rw [hcs] at hmnemonic
    exact ⟨c, _, rfl, Line.not_blank_of_isAtom hmnemonic (List.mem_cons_self ..)⟩
  have hstrip : stripChars line.toList = line.toList := by
    apply stripChars_of_not_blank
    · rw [hcs]
      intro d hd
      cases hd
      exact hc
    · rw [hchars]
      exact not_blank_of_getLast? hatoms hmnemonic
  have hline : Line.ofChars? line.toList = some (codeLine line) := by
    have hnone : ∀ text ∈ (none : Option String), Line.IsComment text.toList := by simp
    have hread := Line.ofChars?_printed h.mnemonic
      (fun word hword => .inl (isAtom_of_isFixed (h.fixed word hword))) hnone
    rwa [Line.commentChars, List.append_nil, ← hchars,
      ofMnemonic_of_standard h.lookup halias] at hread
  rw [hcs] at hstrip hline
  rw [hcs, Line.ofText?, hstrip]
  exact hline

/-! ## The output as a source -/

/-- The line holds no line feed and is read back as its mnemonic and its operands. -/
structure ReadsBack (line : String) : Prop where
  newline : '\n' ∉ line.toList
  read : Line.ofText? line.toList = some (codeLine line)

theorem readsBack_of_wellWritten {line : String} {signature : Signature}
    (h : WellWritten .standard line signature) (halias : lower (mnemonicOf line) ≠ "alias") :
    ReadsBack line := by
  refine ⟨?_, ofText?_of_wellWritten h halias⟩
  have hatom : ∀ {cs : List Char}, Line.isAtom cs = true → '\n' ∉ cs := fun hcs hmem =>
    absurd (Line.not_blank_of_isAtom hcs hmem) (by decide)
  rw [h.text, toList_intercalate_words]
  intro hmem
  rcases List.mem_append.1 hmem with hmem | hmem
  · exact hatom (Line.isAtom_of_isMnemonic h.mnemonic) hmem
  · obtain ⟨atom, hatoms, hmem⟩ := List.mem_flatMap.1 hmem
    obtain ⟨word, hword, rfl⟩ := List.mem_map.1 hatoms
    rcases List.mem_cons.1 hmem with hmem | hmem
    · exact absurd hmem (by decide)
    · exact hatom (isAtom_of_isFixed (h.fixed word hword)) hmem

/-- Lines of output as source lines, the first of which has the number `next`. -/
def codeLinesFrom (next : Nat) : List String → List SourceLine
  | [] => []
  | line :: lines => ⟨next, codeLine line⟩ :: codeLinesFrom (next + 1) lines

/-- Lines of output as instructions, the first of which has the position `next`. -/
def instructionsIn (next : Nat) : List String → List Instruction
  | [] => []
  | line :: lines =>
    ⟨mnemonicOf line, operandsIn line, next, next, none⟩ :: instructionsIn (next + 1) lines

/-- The section that lines of output make up. -/
def outputSection (lines : List String) : Section where
  name := Section.defaultName
  lines := instructionsIn 0 lines

section Source

variable {lines : List String}

theorem numberedFrom_readsBack (h : ∀ line ∈ lines, ReadsBack line) (next : Nat) :
    numberedFrom next (lines.map String.toList) = codeLinesFrom next lines := by
  induction lines generalizing next with
  | nil => rfl
  | cons line lines ih =>
      rw [List.forall_mem_cons] at h
      rw [List.map_cons, numberedFrom, h.1.read, codeLinesFrom, ih h.2]

theorem sourceLines_joinLines (h : ∀ line ∈ lines, ReadsBack line) :
    sourceLines (joinLines lines) = codeLinesFrom 0 lines := by
  cases lines with
  | nil => decide
  | cons line lines =>
      rw [sourceLines, linesOf_joinLines (List.cons_ne_nil _ _) fun other hother =>
        (h other hother).newline]
      exact numberedFrom_readsBack h 0

theorem bodiesFrom_codeLinesFrom (b : Body) (next : Nat) :
    bodiesFrom b (codeLinesFrom next lines) =
      [{ b with lines := b.lines ++ codeLinesFrom next lines }] := by
  induction lines generalizing b next with
  | nil => simp [codeLinesFrom, bodiesFrom]
  | cons line lines ih =>
      have hopening : (codeLine line).statement.opening? = none := rfl
      simp only [codeLinesFrom, bodiesFrom, hopening, ih, Body.push, List.append_assoc,
        List.singleton_append]

theorem instructionsFrom_codeLinesFrom (next : Nat) :
    instructionsFrom next (codeLinesFrom next lines) = instructionsIn next lines := by
  induction lines generalizing next with
  | nil => rfl
  | cons line lines ih =>
      have hline : SourceLine.instruction? next ⟨next, codeLine line⟩ =
          some ⟨mnemonicOf line, operandsIn line, next, next, none⟩ := rfl
      rw [codeLinesFrom, instructionsFrom, hline, instructionsIn, ih]

theorem definitionsFrom_codeLinesFrom (home position next : Nat) :
    definitionsFrom home position (codeLinesFrom next lines) = [] := by
  induction lines generalizing position next with
  | nil => rfl
  | cons line lines ih =>
      have hsymbol : (codeLine line).statement.symbol? home position = none := rfl
      rw [codeLinesFrom, definitionsFrom, hsymbol, ih]
      rfl

theorem alias?_codeLinesFrom (next : Nat) :
    (codeLinesFrom next lines).filterMap (fun l => l.line.statement.alias?) = [] := by
  induction lines generalizing next with
  | nil => rfl
  | cons line lines ih => exact ih (next + 1)

/-- The output is a source of one section that binds no name. -/
theorem sections_joinLines (h : ∀ line ∈ lines, ReadsBack line) :
    (Reading.of (joinLines lines)).program.sections =
      [outputSection lines].filter Section.holds := by
  rw [sections_eq, bodies, sourceLines_joinLines h, bodiesFrom_codeLinesFrom, List.nil_append]
  simp only [sectionsBehind, Body.sectionBehind, Body.aliases, Body.definitions, Body.instructions,
    instructionsFrom_codeLinesFrom, definitionsFrom_codeLinesFrom, alias?_codeLinesFrom, fresh,
    List.foldl_nil, outputSection]

theorem symbolNames_joinLines (h : ∀ line ∈ lines, ReadsBack line) :
    (Reading.of (joinLines lines)).program.symbolNames = [] := by
  rw [symbolNames_eq, sections_joinLines h, List.flatMap_eq_nil_iff]
  intro s hs
  rw [List.mem_singleton.1 (List.mem_of_mem_filter hs)]
  rfl

theorem chosen_joinLines (h : ∀ line ∈ lines, ReadsBack line) :
    (Reading.of (joinLines lines)).chosen [] = [outputSection lines].filter Section.holds := by
  rw [Reading.chosen, choose_nil, sections_joinLines h]
  cases hholds : (outputSection lines).holds with
  | true =>
      rw [List.filter_cons_of_pos hholds]
      rfl
  | false =>
      rw [List.filter_cons_of_neg (by simp [hholds])]
      rfl

theorem errors_of_readsBack {texts : List (List Char)}
    (h : ∀ text ∈ texts, ∃ line, Line.ofText? text = some (codeLine line)) :
    ∀ {r : Reader}, r.diagnostics.errors = [] → (texts.foldl Reader.step r).diagnostics.errors = [] := by
  induction texts with
  | nil => exact fun hr => hr
  | cons text texts ih =>
      intro r hr
      rw [List.forall_mem_cons] at h
      obtain ⟨line, hline⟩ := h.1
      apply ih h.2
      rw [Reader.step_of_some hline]
      exact (r.take_fault _).trans (r.errorsWith_none.trans hr)

/-- The output is read without errors. -/
theorem valid_joinLines (h : ∀ line ∈ lines, ReadsBack line) :
    (Reading.of (joinLines lines)).valid = true := by
  cases lines with
  | nil => decide +kernel
  | cons line lines =>
      have hlines := linesOf_joinLines (List.cons_ne_nil line lines) fun other hother =>
        (h other hother).newline
      apply valid_of_errors
      rw [hlines]
      refine errors_of_readsBack (fun text htext => ?_) rfl
      obtain ⟨other, hother, rfl⟩ := List.mem_map.1 htext
      exact ⟨other, (h other hother).read⟩

end Source

/-! ## Relocation -/

/-- The integer that a word stands for at a relative place. -/
def target? (c : Constraint) (word : String) : Option Int :=
  if c.isRelative then (readInt? word).bind Except.toOption else none

/-- What becomes of a word of the instruction at `address`: an integer at a relative place is made
relative, all else stays. -/
def relocated (address : Nat) (c : Constraint) (word : String) : String :=
  match target? c word with
  | some v => intText (v - address)
  | none => word

/-- What becomes of the operands of the instruction at `address`. -/
def relocatedOperands (address : Nat) : List Constraint → List String → List String
  | c :: cs, word :: words => relocated address c word :: relocatedOperands address cs words
  | _, words => words

/-- The constraints of the places of a line of output. -/
def constraintsIn (table : Table) (line : String) : List Constraint :=
  ((table.lookup (mnemonicOf line)).map Signature.constraints).getD []

/-- The line of output at `address` with the integers at its relative places made relative. -/
def relocatedLine (table : Table) (address : Nat) (line : String) : String :=
  " ".intercalate
    (mnemonicOf line :: relocatedOperands address (constraintsIn table line) (operandsIn line))

/-- The integers at the relative places of a line of output. -/
def relativeTargets (table : Table) (line : String) : List Int :=
  ((operandsIn line).zip (constraintsIn table line)).filterMap fun place => target? place.2 place.1

/-- The integer has more digits than can be written. -/
def isOverlong (n : Int) : Bool := decide (digitLimit < (natDigits n.natAbs).length)

/-- Without integers at relative places there is nothing to relocate. -/
theorem relocatedOperands_eq_self (address : Nat) :
    ∀ {cs : List Constraint} {words : List String},
      (words.zip cs).filterMap (fun place => target? place.2 place.1) = [] →
        relocatedOperands address cs words = words
  | [], words, _ => by rw [relocatedOperands]; simp
  | c :: cs, [], _ => rfl
  | c :: cs, word :: words, h => by
      rw [List.zip_cons_cons, List.filterMap_eq_nil_iff, List.forall_mem_cons] at h
      rw [relocatedOperands, relocated, h.1,
        relocatedOperands_eq_self address (List.filterMap_eq_nil_iff.2 h.2)]

theorem relocatedLine_eq_self {table : Table} {line : String} {signature : Signature}
    (h : WellWritten table line signature) (hnone : relativeTargets table line = [])
    (address : Nat) : relocatedLine table address line = line := by
  rw [relocatedLine, relocatedOperands_eq_self address hnone, ← h.text]

/-! ## Runs that only a long integer can stop -/

/-- The computation finishes with a result of which `R` holds; or it is stopped because an integer
cannot be written, and `P` holds. -/
inductive FinishesUnless {α : Type} (P : Prop) (R : α → Prop) : Except NumeralFault α → Prop where
  | finished {a : α} (h : R a) : FinishesUnless P R (.ok a)
  | stopped (h : P) : FinishesUnless P R (.error .writeTooLong)

namespace FinishesUnless

variable {α β : Type} {P Q : Prop} {R : α → Prop} {S : β → Prop} {x : Except NumeralFault α}

theorem bind {f : α → Except NumeralFault β} (h : FinishesUnless P R x) (hP : P → Q)
    (hf : ∀ {a}, R a → FinishesUnless Q S (f a)) : FinishesUnless Q S (x.bind f) := by
  cases h with
  | finished ha => exact hf ha
  | stopped hp => exact .stopped (hP hp)

theorem map {f : α → β} (h : FinishesUnless P R x) (hP : P → Q) (hf : ∀ {a}, R a → S (f a)) :
    FinishesUnless Q S (x.map f) := by
  cases h with
  | finished ha => exact .finished (hf ha)
  | stopped hp => exact .stopped (hP hp)

end FinishesUnless

theorem writeInt_finishes (n : Int) :
    FinishesUnless (isOverlong n = true) (· = intText n) (writeInt n) := by
  rw [writeInt]
  split
  · rename_i hlimit
    exact .stopped (decide_eq_true hlimit)
  · exact .finished rfl

/-- The scope binds no name. -/
structure Scope.Bare (scope : Scope) : Prop where
  unalias : ∀ token, scope.unalias token = token
  find? : ∀ name, scope.find? name = none

theorem classify_of_isSteady {word : String} {find : String → Option Found}
    (h : (Shape.of word).isSteady = true) (hfind : find word = none) (substitute : Bool) :
    ∃ operand, Operand.classify word find substitute = .ok operand ∧ operand.text = word := by
  rw [Operand.classify]
  cases hshape : Shape.of word with
  | number | device | register => exact ⟨_, rfl, rfl⟩
  | call | hex =>
      rw [hshape] at h
      cases h
  | word =>
      rw [hfind]
      exact ⟨_, rfl, rfl⟩

section Rerun

variable {scope : Scope}

/-- A fixed word is left as it is where names are replaced and calls expanded; at a relative place an
integer is made relative. -/
theorem resolveOperand_fixed (hscope : scope.Bare) {word : String} {c : Constraint}
    (hfixed : isFixed word = true) (hreadable : c.isRelative = true → isReadable word = true)
    (address : Nat) :
    FinishesUnless (∃ v, target? c word = some v ∧ isOverlong (v - address) = true)
      (fun r => r.text = relocated address c word) (resolveOperand {} scope address word c) := by
  obtain ⟨hatom, hsteady⟩ := Bool.and_eq_true_iff.1 hfixed
  obtain ⟨operand, hclassify, htext⟩ :=
    classify_of_isSteady hsteady (hscope.find? word) c.substitutes
  simp only [resolveOperand, hscope.unalias, ite_self, hclassify, Except.bind, htext,
    expand_of_isAtom hatom, Bool.false_eq_true]
  cases hc : c.isRelative with
  | false => exact .finished (by simp [relocated, target?, hc])
  | true =>
      have hread := hreadable hc
      rw [isReadable] at hread
      simp only [if_true, relativeTo]
      cases htarget : readInt? word with
      | none => exact .finished (by simp [relocated, target?, hc, htarget])
      | some target =>
          cases target with
          | error fault => simp [htarget] at hread
          | ok v =>
              have hv : target? c word = some v := by simp [target?, hc, htarget, Except.toOption]
              have hdistance : FinishesUnless
                  (∃ v, target? c word = some v ∧ isOverlong (v - address) = true)
                  (fun r : Resolved => r.text = intText (v - address))
                  ((writeInt (v - address)).map fun distance => ⟨[], distance⟩) :=
                (writeInt_finishes _).map (fun hlong => ⟨v, hv, hlong⟩) fun h => h
              exact hdistance.map id fun h => h.trans (by rw [relocated, hv])

theorem resolveOperands_fixed (hscope : scope.Bare) (address : Nat) :
    ∀ {words : List String} {cs : List Constraint}, cs.length = words.length →
      (∀ word ∈ words, isFixed word = true) →
      (∀ place ∈ words.zip cs, place.2.isRelative = true → isReadable place.1 = true) →
        FinishesUnless
          (∃ v ∈ (words.zip cs).filterMap (fun place => target? place.2 place.1),
            isOverlong (v - address) = true)
          (fun resolved => resolved.map Resolved.text = relocatedOperands address cs words)
          (resolveOperands {} scope address (words.zip cs))
  | [], [], _, _, _ => .finished rfl
  | word :: words, c :: cs, hlength, hfixed, hreadable => by
      rw [List.forall_mem_cons] at hfixed
      rw [List.zip_cons_cons] at hreadable ⊢
      rw [List.forall_mem_cons] at hreadable
      rw [resolveOperands]
      refine (resolveOperand_fixed hscope hfixed.1 hreadable.1 address).bind ?_ fun hr => ?_
      · rintro ⟨v, hv, hlong⟩
        exact ⟨v, List.mem_filterMap.2 ⟨_, List.mem_cons_self .., hv⟩, hlong⟩
      · refine (resolveOperands_fixed hscope address (Nat.succ.inj hlength) hfixed.2
          hreadable.2).map ?_ fun hrest => ?_
        · rintro ⟨v, hv, hlong⟩
          obtain ⟨place, hplace, hv⟩ := List.mem_filterMap.1 hv
          exact ⟨v, List.mem_filterMap.2 ⟨place, List.mem_cons_of_mem _ hplace, hv⟩, hlong⟩
        · rw [List.map_cons, hr, hrest, relocatedOperands]

/-- A line of output that is assembled again gives itself, relocated. -/
theorem assembleLine_wellWritten (hscope : scope.Bare) {table : Table} {line : String}
    {signature : Signature} (h : WellWritten table line signature) (address : Nat) :
    FinishesUnless (∃ v ∈ relativeTargets table line, isOverlong (v - address) = true)
      (fun o => o.line = some (relocatedLine table address line))
      (assembleLine table {} scope 0 ⟨mnemonicOf line, operandsIn line, address, address, none⟩) := by
  have hconstraints : constraintsIn table line = signature.constraints := by
    rw [constraintsIn, h.lookup, Option.map_some, Option.getD_some]
  simp only [assembleLine, h.lookup, h.arity, ne_eq, not_true_eq_false, if_false, Int.add_zero,
    Int.natCast_zero, relativeTargets, relocatedLine, hconstraints]
  refine (resolveOperands_fixed hscope address h.arity h.fixed h.readable).map id fun hresolved => ?_
  rw [hresolved]
  rfl

/-- What assembling lines of output again makes of the line with the index `i`, and when it cannot
be made. -/
theorem assembleLines_wellWritten (hscope : scope.Bare) {table : Table} :
    ∀ {lines : List String} (next : Nat),
      (∀ line ∈ lines, ∃ signature, WellWritten table line signature) →
        FinishesUnless
          (∃ (i : Nat) (line : String), lines[i]? = some line ∧
            ∃ v ∈ relativeTargets table line, isOverlong (v - (next + i : Nat)) = true)
          (fun outcomes => (emitted outcomes).map Prod.fst =
            lines.mapIdx fun i line => relocatedLine table (next + i) line)
          (assembleLines table {} scope 0 (instructionsIn next lines))
  | [], next, _ => .finished rfl
  | line :: lines, next, h => by
      rw [List.forall_mem_cons] at h
      obtain ⟨signature, hline⟩ := h.1
      rw [instructionsIn, assembleLines]
      refine (assembleLine_wellWritten hscope hline next).bind ?_ fun ho => ?_
      · exact fun hlong => ⟨0, line, rfl, hlong⟩
      · have hshift : ∀ i, next + (i + 1) = next + 1 + i := by omega
        refine (assembleLines_wellWritten hscope (next + 1) h.2).map ?_ fun hrest => ?_
        · rintro ⟨i, other, hother, hlong⟩
          refine ⟨i + 1, other, hother, ?_⟩
          rwa [hshift]
        · have hothers : lines.mapIdx (fun i line => relocatedLine table (next + (i + 1)) line) =
              lines.mapIdx fun i line => relocatedLine table (next + 1 + i) line := by
            congr 1
            funext i
            rw [hshift]
          rw [List.mapIdx_cons, hothers, ← hrest]
          simp only [emitted, List.filterMap_cons, ho, Option.map_some, List.map_cons, Nat.add_zero]

end Rerun

theorem bare_outputSection (lines : List String) :
    Scope.Bare ⟨[outputSection lines], [outputSection lines], []⟩ :=
  ⟨fun _ => rfl, fun _ => rfl⟩

/-- What assembling the output again comes to. -/
theorem reassemble_finishes {lines : List String} {table : Table} (advisories : List Advisory)
    (hwritten : ∀ line ∈ lines, ∃ signature, WellWritten table line signature)
    (hread : ∀ line ∈ lines, ReadsBack line) :
    FinishesUnless
      (∃ (i : Nat) (line : String), lines[i]? = some line ∧
        ∃ v ∈ relativeTargets table line, isOverlong (v - i) = true)
      (fun a => a.lines = lines.mapIdx (relocatedLine table))
      ((Reading.of (joinLines lines)).assemble table advisories {}).result := by
  rw [Reading.assemble_result_eq, if_pos (valid_joinLines hread), Reading.outcomes,
    symbolNames_joinLines hread, chosen_joinLines hread]
  cases lines with
  -- The text without lines has one empty line, and no section.
  | nil => exact .finished rfl
  | cons line lines =>
      have hholds : (outputSection (line :: lines)).holds = true := rfl
      have hoffset : (outputSection (line :: lines)).offset = 0 := rfl
      have hlines : (outputSection (line :: lines)).lines = instructionsIn 0 (line :: lines) := rfl
      have hrun := assembleLines_wellWritten (bare_outputSection (line :: lines)) 0 hwritten
      simp only [Nat.zero_add] at hrun
      rw [List.filter_cons_of_pos hholds, List.filter_nil, assembleSections, List.nil_append, hoffset,
        hlines]
      generalize assembleLines table {} _ 0 (instructionsIn 0 (line :: lines)) = run at hrun ⊢
      cases hrun with
      | stopped hlong => exact .stopped hlong
      | finished houtcomes =>
          refine .finished ?_
          simp only [Assembly.ofOutcomes, List.append_nil]
          exact houtcomes

/-- Assembling the output of a run again, one without errors that expands calls and drops comments,
gives the same lines, but an integer `v` at a relative place of the line `i` becomes `v - i`; only a
difference that is too long to be written stops it.  Output without such integers is a fixed point.
A line of `alias` would be read as a directive. -/
theorem reassembly_relocates {source : String} {advisories : List Advisory} {options : Options}
    {a : Assembly} (again : List Advisory) (hkeep : options.keepCalls = false)
    (hcomments : options.comments = false)
    (hrun : ((Reading.of source).assemble .standard advisories options).result = .ok a)
    (hvalid : a.valid = true) (halias : ∀ line ∈ a.lines, lower (mnemonicOf line) ≠ "alias") :
    ((∃ b, ((Reading.of a.output).assemble .standard again {}).result = .ok b ∧
          b.lines = a.lines.mapIdx (relocatedLine .standard)) ∨
        (((Reading.of a.output).assemble .standard again {}).result = .error .writeTooLong ∧
          ∃ (i : Nat) (line : String), a.lines[i]? = some line ∧
            ∃ v ∈ relativeTargets .standard line, isOverlong (v - i) = true)) ∧
      ((∀ line ∈ a.lines, relativeTargets .standard line = []) →
        ∃ b, ((Reading.of a.output).assemble .standard again {}).result = .ok b ∧
          b.lines = a.lines) := by
  have hwritten : ∀ line ∈ a.lines, ∃ signature, WellWritten .standard line signature :=
    fun line hline => wellWritten_of_mem_lines hkeep hcomments hrun hvalid hline
  have hread : ∀ line ∈ a.lines, ReadsBack line := by
    intro line hline
    obtain ⟨signature, hsignature⟩ := hwritten line hline
    exact readsBack_of_wellWritten hsignature (halias line hline)
  have hagain := reassemble_finishes again hwritten hread
  rw [Assembly.output]
  generalize ((Reading.of (joinLines a.lines)).assemble .standard again {}).result = result at hagain ⊢
  cases hagain with
  | stopped hlong =>
      refine ⟨.inr ⟨rfl, hlong⟩, fun hnone => ?_⟩
      obtain ⟨i, line, hline, v, hv, -⟩ := hlong
      rw [hnone line (List.mem_of_getElem? hline)] at hv
      cases hv
  | finished hlines =>
      refine ⟨.inl ⟨_, rfl, hlines⟩, fun hnone => ⟨_, rfl, hlines.trans ?_⟩⟩
      apply List.ext_getElem?
      intro i
      rw [List.getElem?_mapIdx]
      cases hline : a.lines[i]? with
      | none => rfl
      | some line =>
          obtain ⟨signature, hsignature⟩ := hwritten line (List.mem_of_getElem? hline)
          rw [Option.map_some,
            relocatedLine_eq_self hsignature (hnone line (List.mem_of_getElem? hline))]

/-- A second pass over `mixedResult` changes the distance of the jump, and nothing else. -/
theorem reassembly_relocates_mixed :
    ((Reading.of mixedOperands).assemble .standard [] {}).result = .ok mixedResult ∧
      ∃ b, ((Reading.of mixedResult.output).assemble .standard [] {}).result = .ok b ∧
        b.lines = ["add r0 16 3904355907", "move r1 Temperature", "jr -4"] := by
  have hrun : ((Reading.of mixedOperands).assemble .standard [] {}).result = .ok mixedResult := by
    decide +kernel
  have hshort : ∀ line ∈ mixedResult.lines, ∀ v ∈ relativeTargets .standard line, ∀ i < 3,
      isOverlong (v - (i : Nat)) = false := by
    decide +kernel
  have hagain := reassembly_relocates [] rfl rfl hrun rfl (by decide +kernel)
  refine ⟨hrun, ?_⟩
  rcases hagain.1 with ⟨b, hb, hlines⟩ | ⟨-, i, line, hline, v, hv, hlong⟩
  · exact ⟨b, hb, hlines.trans (by decide +kernel)⟩
  · have hi : i < 3 := (List.getElem?_eq_some_iff.1 hline).1
    rw [hshort line (List.mem_of_getElem? hline) v hv i hi] at hlong
    cases hlong

end ChipAsm
