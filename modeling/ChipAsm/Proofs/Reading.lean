import ChipAsm.Proofs.Source

/-!
# Reading follows the bodies

A reader goes through a source line by line and keeps one open section.  `Reader.Takes` says what a
statement can do to a reader, and everything else here is derived from it.  A line that opens no
section is absorbed by the open one (`take_absorbs`).  A line that opens a section closes the open
one (`take_opening`).  Errors are never taken back, and a line adds at most one (`take_fault`).

The reader counts the instructions of the open section by itself, and marks labels and numbers
instructions with that count.  It is the size of the section at every line (`Counts.step`), also when
the reader goes on to another source (`counts_reads`).

A reader tracks a body while its open section is the section of the lines of that body read so far.
By induction on the lines, `sections_eq` says that reading a source gives the sections of its bodies
that hold anything.  `sections_eq_of_valid` says that nothing is left out of them if the source is
read without errors.
-/

namespace ChipAsm

open ChipAsm.Text ChipAsm.Token

/-! ## What the reader does with a statement -/

/-- A reader and what it becomes by a statement with a comment behind it.  Errors are only added. -/
inductive Reader.Takes (r : Reader) (comment : Option String) : Statement → Reader → Prop where
  | constant {name value : String} :
    Takes r comment (.constant name value) (r.addSymbol (.constant r.current.ordinal name value))
  | binding {name target : String} :
    Takes r comment (.binding name target) (r.addAlias [name, target] comment)
  | opening {name : String} {required : List String} {d : Diagnostics}
    (h : r.diagnostics.errors <+: d.errors) :
    Takes r comment (.opening name required)
      { r.close.start name required with diagnostics := d }
  | code {label opcode : Option String} {operands : List String} :
    Takes r comment (.code label opcode operands) (r.code label opcode operands comment)
  | faulty {d : Diagnostics} (h : r.diagnostics.errors <+: d.errors) :
    Takes r comment .faulty { r with diagnostics := d }

namespace Reader

/-- Closing the current section changes nothing but how often it has joined, and the names of the
closed sections. -/
theorem close_eq (r : Reader) :
    r.close = { r with joined := r.close.joined, sectionNames := r.close.sectionNames } := by
  unfold close
  split
  · split <;> rfl
  · rfl

theorem close_current (r : Reader) : r.close.current = r.current := by
  rw [close_eq]

theorem close_position (r : Reader) : r.close.position = r.position := by
  rw [close_eq]

theorem close_symbolNames (r : Reader) : r.close.symbolNames = r.symbolNames := by
  rw [close_eq]

theorem close_diagnostics (r : Reader) : r.close.diagnostics = r.diagnostics := by
  rw [close_eq]

theorem close_line (r : Reader) : r.close.line = r.line := by
  rw [close_eq]

/-- What a section requires is what its words say, also if something is wrong with them. -/
theorem requirements_fst (r : Reader) (words : List String) :
    (r.requirements words).1 = requiredIn words := by
  unfold requirements requiredIn
  split
  · rfl
  · rfl
  · rename_i word required hne
    cases required with
    | nil => exact absurd rfl hne
    | cons name names => simp only; split <;> rfl

/-- Opening a section closes the current one, and may record what is wrong with the requirements. -/
theorem beginSection_takes (r : Reader) (comment : Option String) (name : String)
    (words : List String) :
    r.Takes comment (.opening name (requiredIn words)) (r.beginSection (name :: words)) := by
  rw [← r.close.requirements_fst words]
  unfold beginSection
  simp only
  cases (r.close.requirements words).2 with
  | none =>
      exact .opening (d := r.close.diagnostics) (by simp only [close_diagnostics, List.prefix_refl])
  | some problem =>
      refine .opening (d := (r.close.fail problem).diagnostics) ?_
      simp only [fail, close_diagnostics, Diagnostics.fail]
      exact List.prefix_append _ _

theorem fail_takes (r : Reader) (comment : Option String) (problem : Problem) :
    r.Takes comment .faulty (r.fail problem) :=
  .faulty (d := (r.fail problem).diagnostics) (List.prefix_append _ _)

/-- A reader does with a line what the statement of the line asks for. -/
theorem take_takes (r : Reader) (line : Line) :
    r.Takes line.comment line.statement (r.take line) := by
  obtain ⟨head, operands, comment⟩ := line
  cases head with
  | code label opcode => exact .code
  | directive word =>
      simp only [Line.statement, take, Statement.ofDirective]
      split
      · rcases operands with _ | ⟨name, _ | ⟨value, _ | ⟨_, _⟩⟩⟩
        · exact r.fail_takes _ _
        · exact r.fail_takes _ _
        · exact .constant
        · exact r.fail_takes _ _
      · split
        · rcases operands with _ | ⟨name, _ | ⟨target, _ | ⟨_, _⟩⟩⟩
          · exact r.fail_takes _ _
          · exact r.fail_takes _ _
          · exact .binding
          · exact r.fail_takes _ _
        · split
          · cases operands with
            | nil => exact r.fail_takes _ _
            | cons name words => exact r.beginSection_takes _ _ _
          · exact .faulty (List.prefix_refl _)

end Reader


/-- The symbol that a line defines in the current section, as a list. -/
def Reader.defined (r : Reader) (line : Line) : List Symbol :=
  (line.statement.symbol? r.current.ordinal r.position).toList

/-- The reader with what its next line says about the current section. -/
def Reader.absorb (r : Reader) (line : Line) : Reader :=
  { r with
    current := r.current.absorb r.symbolNames r.position ⟨r.line, line⟩
    position := r.position + (SourceLine.instruction? r.position ⟨r.line, line⟩).toList.length
    symbolNames := r.symbolNames ++ (fresh r.symbolNames (r.defined line)).map Symbol.name }

/-- A reader and what it becomes by a line that opens no section.  Errors are only added, and one is
if the line defines a symbol again. -/
structure Reader.Absorbs (r : Reader) (line : Line) (r' : Reader) : Prop where
  eq : r' =
    { r.absorb line with aliasNames := r'.aliasNames, diagnostics := r'.diagnostics }
  errors : r.diagnostics.errors <+: r'.diagnostics.errors
  unique : r'.diagnostics.errors = [] → fresh r.symbolNames (r.defined line) = r.defined line

namespace Reader

/-- The reader with symbols added to its current section, those of a new name. -/
def withSymbols (r : Reader) (defined : List Symbol) : Reader :=
  { r with
    current := { r.current with symbols := r.current.symbols ++ fresh r.symbolNames defined }
    symbolNames := r.symbolNames ++ (fresh r.symbolNames defined).map Symbol.name }

/-- A symbol is added if its name is new, and otherwise nothing changes but the errors. -/
theorem addSymbol_eq (r : Reader) (d : Symbol) :
    r.addSymbol d = { r.withSymbols [d] with diagnostics := (r.addSymbol d).diagnostics } := by
  unfold addSymbol
  split
  · rename_i htaken
    simp [withSymbols, fresh, htaken, fail]
  · rename_i htaken
    simp [withSymbols, fresh, htaken, Section.addSymbol]

theorem addSymbol_errors (r : Reader) (d : Symbol) :
    r.diagnostics.errors <+: (r.addSymbol d).diagnostics.errors := by
  unfold addSymbol
  split
  · exact List.prefix_append _ _
  · exact List.prefix_refl _

/-- Without an error, the name of a symbol that was added is new. -/
theorem fresh_of_addSymbol_errors {r : Reader} {d : Symbol}
    (h : (r.addSymbol d).diagnostics.errors = []) : fresh r.symbolNames [d] = [d] := by
  unfold addSymbol at h
  split at h
  · simp [fail, Diagnostics.fail] at h
  · rename_i htaken
    simp [fresh, htaken]

theorem constant_absorbs {r : Reader} {line : Line} {name value : String}
    (h : line.statement = .constant name value) :
    r.Absorbs line (r.addSymbol (.constant r.current.ordinal name value)) := by
  have hdefined : r.defined line = [.constant r.current.ordinal name value] := by
    simp [defined, h, Statement.symbol?]
  constructor
  · rw [addSymbol_eq]
    simp [absorb, Section.absorb, withSymbols, defined, h, Statement.symbol?, Statement.alias?,
      SourceLine.instruction?, Statement.instruction?]
  · exact addSymbol_errors r _
  · rw [hdefined]
    exact fresh_of_addSymbol_errors

/-- A label marks the position in front of the instruction on its line. -/
theorem code_absorbs {r : Reader} {line : Line} {label opcode : Option String}
    {operands : List String} (h : line.statement = .code label opcode operands) :
    r.Absorbs line (r.code label opcode operands line.comment) := by
  have hmark : r.mark label =
      { r.withSymbols (r.defined line) with diagnostics := (r.mark label).diagnostics } := by
    cases label with
    | none => simp [mark, withSymbols, defined, h, Statement.symbol?, fresh]
    | some name => simpa [mark, defined, h, Statement.symbol?] using addSymbol_eq r _
  have hdiag : (r.code label opcode operands line.comment).diagnostics =
      (r.mark label).diagnostics := by
    cases opcode <;> rfl
  constructor
  · unfold code
    rw [hmark]
    cases opcode with
    | none =>
        simp [absorb, Section.absorb, withSymbols, defined, h, Statement.alias?,
          SourceLine.instruction?, Statement.instruction?]
    | some opcode =>
        simp [absorb, Section.absorb, withSymbols, defined, h, Statement.alias?,
          SourceLine.instruction?, Statement.instruction?, addLine, Section.addLine]
  · rw [hdiag]
    cases label with
    | none => exact List.prefix_refl _
    | some name => exact addSymbol_errors r _
  · rw [hdiag]
    cases label with
    | none => simp [defined, h, Statement.symbol?, fresh]
    | some name =>
        simp only [defined, h, Statement.symbol?]
        exact fresh_of_addSymbol_errors

theorem keepAlias_errors (r : Reader) (name target : String) (comment : Option String) :
    (r.keepAlias name target comment).diagnostics.errors = r.diagnostics.errors := by
  unfold keepAlias
  split
  · rfl
  · split <;> rfl

/-- An alias is bound in the current section, and that of a device is kept as an instruction. -/
theorem binding_absorbs {r : Reader} {line : Line} {name target : String}
    (h : line.statement = .binding name target) :
    r.Absorbs line (r.addAlias [name, target] line.comment) := by
  have hdefined : r.defined line = [] := by simp [defined, h, Statement.symbol?]
  have hnote : r.noteAlias name target =
      { r with
        aliasNames := (r.noteAlias name target).aliasNames
        diagnostics := (r.noteAlias name target).diagnostics } := by
    unfold noteAlias
    split
    · split <;> rfl
    · rfl
  have hnoteErrors : r.diagnostics.errors <+: (r.noteAlias name target).diagnostics.errors := by
    unfold noteAlias
    split
    · split
      · exact List.prefix_refl _
      · exact List.prefix_append _ _
    · exact List.prefix_refl _
  constructor
  · simp only [addAlias, keepAlias]
    rw [hnote]
    split
    · rename_i hdevice
      simp [absorb, Section.absorb, defined, h, fresh, Statement.symbol?,
        Statement.alias?, SourceLine.instruction?, Statement.instruction?, hdevice, addLine,
        Section.addLine, Section.bindAlias]
    · rename_i hdevice
      split
      · simp [absorb, Section.absorb, defined, h, fresh, Statement.symbol?,
          Statement.alias?, SourceLine.instruction?, Statement.instruction?, hdevice,
          Section.bindAlias]
      · simp [absorb, Section.absorb, defined, h, fresh, Statement.symbol?,
          Statement.alias?, SourceLine.instruction?, Statement.instruction?, hdevice, warn,
          Section.bindAlias]
  · simpa only [addAlias, keepAlias_errors] using hnoteErrors
  · simp [hdefined, fresh]

theorem faulty_absorbs {r : Reader} {line : Line} {d : Diagnostics}
    (h : line.statement = .faulty) (hd : r.diagnostics.errors <+: d.errors) :
    r.Absorbs line { r with diagnostics := d } := by
  constructor
  · simp [absorb, Section.absorb, defined, h, fresh, Statement.symbol?,
      Statement.alias?, SourceLine.instruction?, Statement.instruction?]
  · exact hd
  · simp [defined, h, Statement.symbol?, fresh]

/-- A line that opens no section is absorbed by the current one. -/
theorem take_absorbs {r : Reader} {line : Line} (h : line.statement.opening? = none) :
    r.Absorbs line (r.take line) := by
  have htakes := r.take_takes line
  generalize hst : line.statement = st at htakes h
  generalize r.take line = r' at htakes
  cases htakes with
  | constant => exact constant_absorbs hst
  | binding => exact binding_absorbs hst
  | opening hd => cases h
  | code => exact code_absorbs hst
  | faulty hd => exact faulty_absorbs hst hd

end Reader


/-! ## What is wrong with a line -/

namespace Reader

/-- What is wrong with a line for a reader in front of it. -/
def fault? (r : Reader) (line : Line) : Option Problem :=
  match line.head with
  | .directive word =>
    if word = "define" then
      match line.operands with
      | [name, _] => if name ∈ r.symbolNames then some (.duplicateSymbol name) else none
      | _ => some .defineCount
    else if word = "alias" then
      match line.operands with
      | [name, target] =>
        if name ∈ r.aliasNames ∧ isDevice target = false then some (.duplicateAlias name) else none
      | _ => some .aliasCount
    else if word = "section" then
      match line.operands with
      | [] => some .sectionName
      | _ :: words => (r.close.requirements words).2
    else none
  | .code label _ =>
    label.bind fun name => if name ∈ r.symbolNames then some (.duplicateSymbol name) else none

/-- What is wrong with a text for a reader in front of it. -/
def textFault? (r : Reader) (text : List Char) : Option Problem :=
  match stripChars text with
  | [] => none
  | cs =>
    match Line.ofChars? cs with
    | some line => r.fault? line
    | none => some .unrecognized

/-- The errors of a reader with one more problem at its line, if there is one. -/
def errorsWith (r : Reader) (problem : Option Problem) : List Remark :=
  r.diagnostics.errors ++ problem.toList.map fun problem => ⟨problem, some (r.line : Int)⟩

theorem fail_errors (r : Reader) (problem : Problem) :
    (r.fail problem).diagnostics.errors = r.errorsWith (some problem) := rfl

theorem errorsWith_none (r : Reader) : r.errorsWith none = r.diagnostics.errors :=
  List.append_nil _

theorem errorsWith_eq_nil_iff {r : Reader} {problem : Option Problem} :
    r.errorsWith problem = [] ↔ r.diagnostics.errors = [] ∧ problem = none := by
  cases problem <;> simp [errorsWith]

theorem addSymbol_fault (r : Reader) (symbol : Symbol) :
    (r.addSymbol symbol).diagnostics.errors =
      r.errorsWith (if symbol.name ∈ r.symbolNames then some (.duplicateSymbol symbol.name)
        else none) := by
  unfold addSymbol
  split
  · rfl
  · exact r.errorsWith_none.symm

theorem noteAlias_fault (r : Reader) (name target : String) :
    (r.noteAlias name target).diagnostics.errors =
      r.errorsWith (if name ∈ r.aliasNames ∧ isDevice target = false then
        some (.duplicateAlias name) else none) := by
  unfold noteAlias
  by_cases hname : name ∈ r.aliasNames
  · cases hdevice : isDevice target with
    | true => simp [hname, errorsWith_none, warn, Diagnostics.warn]
    | false => simp [hname, fail_errors]
  · simp [hname, errorsWith_none]

theorem beginSection_fault (r : Reader) (name : String) (words : List String) :
    (r.beginSection (name :: words)).diagnostics.errors =
      r.errorsWith (r.close.requirements words).2 := by
  unfold beginSection
  simp only
  cases (r.close.requirements words).2 with
  | none =>
      simp only [start, errorsWith_none, close_diagnostics]
  | some problem =>
      have hline : r.close.line = r.line := by rw [close_eq]
      simp only [start, fail_errors, errorsWith, close_diagnostics, hline]

theorem code_fault (r : Reader) (label opcode : Option String) (operands : List String)
    (comment : Option String) :
    (r.code label opcode operands comment).diagnostics.errors =
      r.errorsWith (label.bind fun name =>
        if name ∈ r.symbolNames then some (.duplicateSymbol name) else none) := by
  have hmark : (r.code label opcode operands comment).diagnostics = (r.mark label).diagnostics := by
    cases opcode <;> rfl
  rw [hmark]
  cases label with
  | none => exact r.errorsWith_none.symm
  | some name => exact r.addSymbol_fault _

/-- A line adds what is wrong with it to the errors, and nothing else. -/
theorem take_fault (r : Reader) (line : Line) :
    (r.take line).diagnostics.errors = r.errorsWith (r.fault? line) := by
  obtain ⟨head, operands, comment⟩ := line
  cases head with
  | code label opcode => exact r.code_fault ..
  | directive word =>
      simp only [take, fault?]
      split
      · rcases operands with _ | ⟨name, _ | ⟨value, _ | ⟨_, _⟩⟩⟩
        · rfl
        · rfl
        · exact r.addSymbol_fault _
        · rfl
      · split
        · rcases operands with _ | ⟨name, _ | ⟨target, _ | ⟨_, _⟩⟩⟩
          · rfl
          · rfl
          · exact (keepAlias_errors ..).trans (r.noteAlias_fault name target)
          · rfl
        · split
          · cases operands with
            | nil => rfl
            | cons name words => exact r.beginSection_fault name words
          · exact r.errorsWith_none.symm

/-- A text adds one error if something is wrong with it, and none otherwise. -/
theorem step_fault (r : Reader) (text : List Char) :
    (r.step text).diagnostics.errors = r.errorsWith (r.textFault? text) := by
  unfold step takeText textFault?
  cases stripChars text with
  | nil => exact r.errorsWith_none.symm
  | cons c cs =>
      simp only
      cases Line.ofChars? (c :: cs) with
      | none => rfl
      | some line => exact r.take_fault line

theorem step_errors (r : Reader) (text : List Char) :
    r.diagnostics.errors <+: (r.step text).diagnostics.errors := by
  rw [step_fault]
  exact List.prefix_append _ _

/-- Errors are only added. -/
theorem foldl_errors (texts : List (List Char)) :
    ∀ r : Reader, r.diagnostics.errors <+: (texts.foldl step r).diagnostics.errors := by
  induction texts with
  | nil => exact fun r => List.prefix_refl _
  | cons text texts ih => exact fun r => (r.step_errors text).trans (ih (r.step text))

end Reader

/-! ## The count of instructions -/

/-- The reader counts the instructions of its current section. -/
def Reader.Counts (r : Reader) : Prop := r.position = r.current.size

namespace Reader

/-- A text that holds no line changes nothing but the errors and the number of the next line. -/
theorem step_of_none {r : Reader} {text : List Char} (h : Line.ofText? text = none) :
    ∃ d, r.diagnostics.errors <+: d.errors ∧
      r.step text = { r with diagnostics := d, line := r.line + 1 } := by
  unfold Line.ofText? at h
  unfold step takeText
  cases hcs : stripChars text with
  | nil => exact ⟨r.diagnostics, List.prefix_refl _, rfl⟩
  | cons c cs =>
      simp only [hcs] at h
      simp only [h]
      exact ⟨(r.fail .unrecognized).diagnostics, List.prefix_append _ _, rfl⟩

theorem step_of_some {r : Reader} {text : List Char} {line : Line}
    (h : Line.ofText? text = some line) :
    r.step text = { r.take line with line := (r.take line).line + 1 } := by
  unfold Line.ofText? at h
  unfold step takeText
  cases hcs : stripChars text with
  | nil => rw [hcs] at h; cases h
  | cons c cs =>
      simp only [hcs] at h
      simp only [h]

/-- A line that opens a section closes the current one and starts another. -/
theorem take_opening {r : Reader} {line : Line} {name : String} {required : List String}
    (h : line.statement.opening? = some (name, required)) :
    ∃ d, r.diagnostics.errors <+: d.errors ∧
      r.take line = { r.close.start name required with diagnostics := d } := by
  have htakes := r.take_takes line
  generalize line.statement = st at htakes h
  generalize r.take line = r' at htakes
  cases htakes with
  | constant => cases h
  | binding => cases h
  | opening hd =>
      cases h
      exact ⟨_, hd, rfl⟩
  | code => rename_i label _ _; cases label <;> cases h
  | faulty hd => cases h

/-- A line that is absorbed is counted if it gives an instruction. -/
theorem Counts.absorbs {r r' : Reader} {line : Line} (h : r.Counts) (habsorbs : r.Absorbs line r') :
    r'.Counts := by
  rw [habsorbs.eq, Counts, Section.size]
  simp only [absorb, Section.absorb, List.length_append]
  rw [h, Section.size]

theorem Counts.take {r : Reader} (h : r.Counts) (line : Line) : (r.take line).Counts := by
  cases hopening : line.statement.opening? with
  | none => exact h.absorbs (take_absorbs hopening)
  | some opened =>
      obtain ⟨d, -, htake⟩ := take_opening (r := r) hopening
      rw [htake]
      rfl

/-- No line makes the count wrong, not even one that opens a section. -/
theorem Counts.step {r : Reader} (h : r.Counts) (text : List Char) : (r.step text).Counts := by
  cases hline : Line.ofText? text with
  | none =>
      obtain ⟨d, -, hstep⟩ := step_of_none (r := r) hline
      rw [hstep]
      exact h
  | some line =>
      rw [step_of_some hline]
      exact h.take line

theorem Counts.foldl (texts : List (List Char)) :
    ∀ {r : Reader}, r.Counts → (texts.foldl Reader.step r).Counts := by
  induction texts with
  | nil => exact id
  | cons text texts ih => exact fun h => ih (h.step text)

theorem Counts.read {r : Reader} (h : r.Counts) (source : String) : (r.read source).Counts := by
  rw [Counts, Reader.read, close_position, close_current]
  exact h.foldl (linesOf source)

/-- The count is right after any number of sources. -/
theorem counts_reads (sources : List String) : (sources.foldl Reader.read {}).Counts := by
  have hstart : Counts {} := rfl
  generalize ({} : Reader) = r at hstart
  induction sources generalizing r with
  | nil => exact hstart
  | cons source sources ih => exact ih (r.read source) (hstart.read source)

end Reader

/-! ## Reading a source -/

/-- The section holds something. -/
def Section.holds (s : Section) : Bool := !s.isEmpty

/-- A reader that has read the body `b` behind those that defined the names in `taken`. -/
structure Reader.Tracks (r : Reader) (taken : List String) (b : Body) : Prop where
  current : r.current = b.sectionBehind taken
  counts : r.Counts
  symbolNames : r.symbolNames = taken ++ r.current.symbols.map Symbol.name
  joined : r.joined = 0
  unique : r.diagnostics.errors = [] → r.current.symbols = b.definitions

/-- What reading to the end makes of a reader in front of the rest of the bodies `bs`. -/
structure Reader.Ends (r : Reader) (taken : List String) (bs : List Body) (final : Reader) :
    Prop where
  sections : final.close.sections =
    r.closed ++ (sectionsBehind taken bs).filter Section.holds
  symbolNames : final.symbolNames =
    taken ++ (sectionsBehind taken bs).flatMap fun s => s.symbols.map Symbol.name
  errors : r.diagnostics.errors <+: final.diagnostics.errors
  unique : final.diagnostics.errors = [] → sectionsBehind taken bs = bs.map Body.toSection

namespace Reader

/-- The current section is kept if it holds something. -/
theorem close_sections {r : Reader} (h : r.joined = 0) :
    r.close.sections = r.closed ++ [r.current].filter Section.holds := by
  unfold close
  cases hempty : r.current.isEmpty with
  | true => cases hdeclared : r.declared <;> simp [sections, h, Section.holds, hempty]
  | false => simp [sections, h, Section.holds, hempty]


/-- A line that opens no section is one more line of the body. -/
theorem Tracks.push {r r' : Reader} {taken : List String} {b : Body} {line : Line}
    (h : r.Tracks taken b) (habsorbs : r.Absorbs line r') :
    r'.Tracks taken (b.push ⟨r.line, line⟩) := by
  have hcurrent : r'.current = r.current.absorb r.symbolNames r.position ⟨r.line, line⟩ := by
    rw [habsorbs.eq]
    rfl
  have hsymbols : r'.current.symbols =
      r.current.symbols ++ fresh r.symbolNames (r.defined line) := by
    rw [hcurrent]
    rfl
  constructor
  · rw [hcurrent, Body.sectionBehind_push, ← h.current, ← h.symbolNames, h.counts]
  · exact h.counts.absorbs habsorbs
  · rw [hsymbols, List.map_append, ← List.append_assoc, ← h.symbolNames, habsorbs.eq]
    rfl
  · rw [habsorbs.eq]
    exact h.joined
  · intro hvalid
    have hbefore : r.diagnostics.errors = [] :=
      List.prefix_nil.1 (hvalid ▸ habsorbs.errors)
    have hordinal : r.current.ordinal = b.ordinal := by rw [h.current]; rfl
    have hposition : r.position = b.instructions.length := by
      rw [h.counts, h.current]
      rfl
    rw [hsymbols, habsorbs.unique hvalid, h.unique hbefore, defined, hordinal, hposition]
    simp [Body.definitions, Body.push, definitionsFrom_append, definitionsFrom, Body.instructions]

theorem Tracks.ends {r : Reader} {taken : List String} {b : Body} (h : r.Tracks taken b) :
    r.Ends taken [b] r := by
  constructor
  · rw [close_sections h.joined, h.current]
    rfl
  · rw [h.symbolNames, h.current]
    simp [sectionsBehind]
  · exact List.prefix_refl _
  · intro hvalid
    have hunique := h.unique hvalid
    rw [h.current] at hunique
    simp only [sectionsBehind, List.map_cons, List.map_nil, List.cons.injEq, and_true]
    simpa [Body.sectionBehind, Body.toSection] using hunique

/-- The end of the reading behind a line that opens a section. -/
theorem Tracks.ends_opening {r final : Reader} {taken : List String} {b : Body} {bs : List Body}
    {name : String} {required : List String} {d : Diagnostics} {next : Nat} (h : r.Tracks taken b)
    (hd : r.diagnostics.errors <+: d.errors)
    (hends : Ends { r.close.start name required with diagnostics := d, line := next }
      r.symbolNames bs final) :
    r.Ends taken (b :: bs) final := by
  have hrest : sectionsBehind taken (b :: bs) = r.current :: sectionsBehind r.symbolNames bs := by
    rw [h.symbolNames, h.current]
    rfl
  constructor
  · rw [hends.sections, hrest]
    simp only [start, close_sections h.joined, List.append_assoc]
    rw [← List.filter_append]
    rfl
  · rw [hends.symbolNames, hrest, List.flatMap_cons, ← List.append_assoc, ← h.symbolNames]
  · exact hd.trans hends.errors
  · intro hvalid
    have hbefore : r.diagnostics.errors = [] :=
      List.prefix_nil.1 (hvalid ▸ hd.trans hends.errors)
    rw [hrest, hends.unique hvalid, List.map_cons, List.cons.injEq]
    refine ⟨?_, rfl⟩
    have hunique := h.unique hbefore
    rw [h.current] at hunique ⊢
    simpa [Body.sectionBehind, Body.toSection] using hunique

/-- Reading texts to the end reads the bodies that they make up. -/
theorem Tracks.ends_foldl {r : Reader} {taken : List String} {b : Body} {texts : List (List Char)}
    (h : r.Tracks taken b) :
    r.Ends taken (bodiesFrom b (numberedFrom r.line texts)) (texts.foldl step r) := by
  induction texts generalizing r taken b with
  | nil => exact h.ends
  | cons text texts ih =>
      rw [List.foldl_cons]
      cases hline : Line.ofText? text with
      | none =>
          obtain ⟨d, hd, hstep⟩ := step_of_none (r := r) hline
          have htracks : (r.step text).Tracks taken b := by
            rw [hstep]
            exact ⟨h.current, h.counts, h.symbolNames, h.joined,
              fun hvalid => h.unique (List.prefix_nil.1 (hvalid ▸ hd))⟩
          have hends := ih htracks
          have hnext : (r.step text).line = r.line + 1 := by rw [hstep]
          rw [hnext] at hends
          rw [numberedFrom, hline]
          refine ⟨?_, hends.symbolNames, ?_, hends.unique⟩
          · rw [hends.sections, hstep]
          · rw [hstep] at hends ⊢
            exact hd.trans hends.errors
      | some line =>
          have hstep := step_of_some (r := r) hline
          rw [numberedFrom, hline]
          simp only [bodiesFrom]
          cases hopen : line.statement.opening? with
          | none =>
              have habsorbs := take_absorbs (r := r) hopen
              have hnext : (r.step text).line = r.line + 1 := by
                rw [hstep, habsorbs.eq]
                rfl
              have htracks : (r.step text).Tracks taken (b.push ⟨r.line, line⟩) := by
                rw [hstep]
                have hpush := h.push habsorbs
                exact ⟨hpush.current, hpush.counts, hpush.symbolNames, hpush.joined, hpush.unique⟩
              have hends := ih htracks
              rw [hnext] at hends
              refine ⟨?_, hends.symbolNames, ?_, hends.unique⟩
              · rw [hends.sections, hstep, habsorbs.eq]
                rfl
              · refine habsorbs.errors.trans ?_
                have herrors := hends.errors
                rw [hstep] at herrors
                rwa [hstep]
          | some opened =>
              obtain ⟨name, required⟩ := opened
              obtain ⟨d, hd, htake⟩ := take_opening (r := r) hopen
              have hopened : r.step text =
                  { r.close.start name required with diagnostics := d, line := r.line + 1 } := by
                rw [hstep, htake]
                simp only [start, close_line]
              have htracks : (r.step text).Tracks r.symbolNames
                  { name, ordinal := b.ordinal + 1, required } := by
                rw [hopened]
                refine ⟨?_, rfl, ?_, rfl, fun _ => rfl⟩
                · simp only [start, close_current, h.current]
                  rfl
                simp only [start, close_symbolNames, List.map_nil, List.append_nil]
              have hends := ih htracks
              rw [hopened] at hends ⊢
              exact h.ends_opening hd hends

theorem tracks_start : Tracks {} [] {} :=
  ⟨rfl, rfl, rfl, rfl, fun _ => rfl⟩

/-- Reading a whole source makes the sections of its bodies, those that hold something. -/
theorem ends_read (source : String) :
    Ends {} [] (bodies source) ((linesOf source).foldl step {}) :=
  tracks_start.ends_foldl

end Reader

/-- Reading a source gives the sections of its bodies that hold anything. -/
theorem sections_eq (source : String) :
    (Reading.of source).program.sections =
      (sectionsBehind [] (bodies source)).filter Section.holds := by
  have hends := Reader.ends_read source
  rw [Reading.of, Reader.reading]
  exact hends.sections

/-- A section that holds nothing adds nothing. -/
theorem flatMap_filter_holds {β : Type} {f : Section → List β}
    (hf : ∀ s : Section, s.isEmpty = true → f s = []) (sections : List Section) :
    (sections.filter Section.holds).flatMap f = sections.flatMap f := by
  induction sections with
  | nil => rfl
  | cons s sections ih =>
      cases hs : s.holds with
      | true => rw [List.filter_cons_of_pos hs, List.flatMap_cons, List.flatMap_cons, ih]
      | false =>
          rw [List.filter_cons_of_neg (by simp [hs]), List.flatMap_cons, ih, hf, List.nil_append]
          simpa [Section.holds] using hs

theorem Section.eq_nil_of_isEmpty {s : Section} (h : s.isEmpty = true) :
    s.lines = [] ∧ s.aliases = [] ∧ s.symbols = [] := by
  simp only [Section.isEmpty, Bool.and_eq_true, List.isEmpty_iff] at h
  exact ⟨h.1.1, h.1.2, h.2⟩

/-- The symbols of a program are those of its sections. -/
theorem symbolNames_eq (source : String) :
    (Reading.of source).program.symbolNames =
      (Reading.of source).program.sections.flatMap fun s => s.symbols.map Symbol.name := by
  have hends := Reader.ends_read source
  rw [sections_eq, flatMap_filter_holds]
  · rw [Reading.of, Reader.reading]
    simp only [Reader.read, Reader.close_symbolNames]
    exact hends.symbolNames
  · intro s hs
    rw [(Section.eq_nil_of_isEmpty hs).2.2, List.map_nil]

theorem valid_iff_errors {source : String} :
    (Reading.of source).valid = true ↔
      ((linesOf source).foldl Reader.step {}).diagnostics.errors = [] := by
  rw [Reading.valid, Diagnostics.valid, List.isEmpty_iff, Reading.of, Reader.reading]
  simp only [Reader.read, Reader.close_diagnostics]

theorem errors_of_valid {source : String} (h : (Reading.of source).valid = true) :
    ((linesOf source).foldl Reader.step {}).diagnostics.errors = [] :=
  valid_iff_errors.1 h

theorem valid_of_errors {source : String}
    (h : ((linesOf source).foldl Reader.step {}).diagnostics.errors = []) :
    (Reading.of source).valid = true :=
  valid_iff_errors.2 h

/-- A source that is read without errors defines no symbol twice, so nothing is left out of the
sections of its bodies. -/
theorem sections_eq_of_valid {source : String} (h : (Reading.of source).valid = true) :
    (Reading.of source).program.sections =
      ((bodies source).map Body.toSection).filter Section.holds := by
  have hends := Reader.ends_read source
  rw [sections_eq, hends.unique (errors_of_valid h)]

end ChipAsm
