import ChipAsm.Proofs.Scoping
import ChipAsm.Proofs.SourceText

/-!
# The layout of a source

Blanks at the ends of a line, and lines with nothing but blanks or a comment, do not matter.  A source
that is laid out anew gives the same lines of output, and the same remarks in the same order.  Only the
lines have other numbers (`layout_immaterial`).

The new number of a line is given by a function `f`.  Everything that holds line numbers can be moved
along `f`, and whatever is done with it can be done before or after that.  For the reader this is
`foldl_moved`, by induction on how the two sources are laid out.  For a run it is `outcomes_moved`.
-/

namespace ChipAsm

open ChipAsm.Text ChipAsm.Token ChipAsm.Number

/-! ## Layouts -/

/-- The texts are the same but for blanks at their ends. -/
def SameInside (text text' : List Char) : Prop :=
  ∃ core left right left' right',
    (∀ c ∈ left ++ right, isBlank c = true) ∧ (∀ c ∈ left' ++ right', isBlank c = true) ∧
      text = left ++ core ++ right ∧ text' = left' ++ core ++ right'

/-- Lines are laid out anew: blanks are put or removed at their ends, and idle lines are put between
them.  The line with the number `n` gets the number `f n`. -/
inductive Relaid (f : Nat → Nat) : Nat → Nat → List (List Char) → List (List Char) → Prop where
  | done {n n' : Nat} : Relaid f n n' [] []
  | kept {n n' : Nat} {text text' : List Char} {texts texts' : List (List Char)} (hplace : f n = n')
    (htext : SameInside text text') (hrest : Relaid f (n + 1) (n' + 1) texts texts') :
    Relaid f n n' (text :: texts) (text' :: texts')
  | added {n n' : Nat} {text' : List Char} {texts texts' : List (List Char)}
    (hidle : isIdle text' = true) (hrest : Relaid f n (n' + 1) texts texts') :
    Relaid f n n' texts (text' :: texts')

/-- Blanks at the ends of a text are stripped, so it does not matter where they stand. -/
theorem SameInside.strip {text text' : List Char} (h : SameInside text text') :
    stripChars text' = stripChars text := by
  obtain ⟨core, left, right, left', right', hblank, hblank', rfl, rfl⟩ := h
  have hstrip : ∀ {left right : List Char}, (∀ c ∈ left ++ right, isBlank c = true) →
      stripChars (left ++ core ++ right) = stripChars core := by
    intro left right hblank
    rw [stripChars_append_of_blank fun c hc => hblank c (List.mem_append_right _ hc), stripChars,
      dropBlanks_append_of_blank fun c hc => hblank c (List.mem_append_left _ hc), ← stripChars]
  rw [hstrip hblank, hstrip hblank']

/-! ## Moving line numbers -/

/-- The remark at the new number of its line. -/
def Remark.moved (f : Nat → Nat) (remark : Remark) : Remark :=
  { remark with line := remark.line.map fun n => (f n.toNat : Int) }

/-- The remarks at the new numbers of their lines. -/
def Diagnostics.moved (f : Nat → Nat) (d : Diagnostics) : Diagnostics :=
  ⟨d.warnings.map (Remark.moved f), d.errors.map (Remark.moved f)⟩

/-- The instruction at the new number of its line. -/
def Instruction.moved (f : Nat → Nat) (l : Instruction) : Instruction :=
  { l with sourceLine := f l.sourceLine }

/-- The section with its instructions at the new numbers of their lines. -/
def Section.moved (f : Nat → Nat) (s : Section) : Section :=
  { s with lines := s.lines.map (Instruction.moved f) }

/-- What was read, at the new numbers of the lines. -/
def Reading.moved (f : Nat → Nat) (reading : Reading) : Reading :=
  { reading with
    program :=
      { reading.program with sections := reading.program.sections.map (Section.moved f) }
    diagnostics := reading.diagnostics.moved f }

/-- The reader with everything it has read at the new numbers of the lines. -/
def Reader.moved (f : Nat → Nat) (r : Reader) : Reader :=
  { r with
    closed := r.closed.map (Section.moved f)
    current := r.current.moved f
    diagnostics := r.diagnostics.moved f
    line := f r.line }

section Reading

variable (f : Nat → Nat)

/-- An error at the new number of a line is the error at the line, moved. -/
theorem Diagnostics.fail_moved (d : Diagnostics) (problem : Problem) (n : Nat) :
    (d.moved f).fail problem (some (f n : Int)) = (d.fail problem (some (n : Int))).moved f := by
  simp [Diagnostics.fail, Diagnostics.moved, Remark.moved]

theorem Diagnostics.warn_moved (d : Diagnostics) (problem : Problem) (n : Nat) :
    (d.moved f).warn problem (some (f n : Int)) = (d.warn problem (some (n : Int))).moved f := by
  simp [Diagnostics.warn, Diagnostics.moved, Remark.moved]

/-- Moving remarks makes no error and removes none. -/
theorem Diagnostics.moved_valid (d : Diagnostics) : (d.moved f).valid = d.valid := by
  simp [Diagnostics.valid, Diagnostics.moved]

theorem Section.moved_size (s : Section) : (s.moved f).size = s.size := by
  simp [Section.size, Section.moved]

theorem Section.moved_isEmpty (s : Section) : (s.moved f).isEmpty = s.isEmpty := by
  simp [Section.isEmpty, Section.moved]

/-- An instruction may be moved before it is added to a section, or with the section. -/
theorem Section.addLine_moved (s : Section) (l : Instruction) :
    (s.moved f).addLine (l.moved f) = (s.addLine l).moved f := by
  simp [Section.addLine, Section.moved]

namespace Reader

theorem fail_moved (r : Reader) (problem : Problem) :
    (r.moved f).fail problem = (r.fail problem).moved f := by
  simp only [fail, moved, Diagnostics.fail_moved]

theorem warn_moved (r : Reader) (problem : Problem) :
    (r.moved f).warn problem = (r.warn problem).moved f := by
  simp only [warn, moved, Diagnostics.warn_moved]

/-- The position of an instruction is counted in its section, and no number of a line enters it. -/
theorem addLine_moved (r : Reader) (opcode : String) (operands : List String)
    (comment : Option String) :
    (r.moved f).addLine opcode operands comment = (r.addLine opcode operands comment).moved f := by
  rw [addLine, addLine, moved, moved, ← Section.addLine_moved]
  rfl

/-- Symbols have no line numbers.  Only the error for a name that is taken is moved. -/
theorem addSymbol_moved (r : Reader) (symbol : Symbol) :
    (r.moved f).addSymbol symbol = (r.addSymbol symbol).moved f := by
  unfold addSymbol
  rw [show (r.moved f).symbolNames = r.symbolNames from rfl]
  split
  · exact fail_moved f r _
  · rfl

/-- Whether a section is kept depends on what it holds, not on where its lines stand. -/
theorem close_moved (r : Reader) : (r.moved f).close = r.close.moved f := by
  unfold close
  rw [show (r.moved f).current = r.current.moved f from rfl, Section.moved_isEmpty,
    show (r.moved f).declared = r.declared from rfl]
  split
  · split <;> rfl
  · rfl

theorem sections_moved (r : Reader) : (r.moved f).sections = r.sections.map (Section.moved f) := by
  simp [sections, moved]

theorem start_moved (r : Reader) (name : String) (required : List String) :
    (r.moved f).start name required = (r.start name required).moved f := by
  rw [start, sections_moved]
  rfl

/-- What is remarked on an alias is remarked at the line of the reader, which is moved with it. -/
theorem noteAlias_moved (r : Reader) (name target : String) :
    (r.moved f).noteAlias name target = (r.noteAlias name target).moved f := by
  unfold noteAlias
  rw [show (r.moved f).aliasNames = r.aliasNames from rfl]
  split
  · split
    · exact warn_moved f r _
    · exact fail_moved f r _
  · rfl

theorem keepAlias_moved (r : Reader) (name target : String) (comment : Option String) :
    (r.moved f).keepAlias name target comment = (r.keepAlias name target comment).moved f := by
  unfold keepAlias
  split
  · exact addLine_moved f r _ _ _
  · split
    · rfl
    · exact warn_moved f r _

theorem define_moved (r : Reader) (operands : List String) :
    (r.moved f).define operands = (r.define operands).moved f := by
  unfold define
  split
  · exact addSymbol_moved f r _
  · exact fail_moved f r _

theorem addAlias_moved (r : Reader) (operands : List String) (comment : Option String) :
    (r.moved f).addAlias operands comment = (r.addAlias operands comment).moved f := by
  unfold addAlias
  split
  · rw [noteAlias_moved, keepAlias_moved]
    rfl
  · exact fail_moved f r _

/-- The requirements of a section are checked against names, which have no line numbers. -/
theorem requirements_moved (r : Reader) (words : List String) :
    (r.moved f).requirements words = r.requirements words := by
  unfold requirements
  split
  · rfl
  · rfl
  · rfl

theorem beginSection_moved (r : Reader) (operands : List String) :
    (r.moved f).beginSection operands = (r.beginSection operands).moved f := by
  unfold beginSection
  split
  · exact fail_moved f r _
  · simp only [close_moved, requirements_moved]
    split
    · rw [fail_moved, start_moved]
    · rw [start_moved]

theorem mark_moved (r : Reader) (label : Option String) :
    (r.moved f).mark label = (r.mark label).moved f := by
  unfold mark
  split
  · exact addSymbol_moved f r _
  · rfl

theorem code_moved (r : Reader) (label opcode : Option String) (operands : List String)
    (comment : Option String) :
    (r.moved f).code label opcode operands comment =
      (r.code label opcode operands comment).moved f := by
  unfold code
  rw [mark_moved]
  split
  · exact addLine_moved f _ _ _ _
  · rfl

/-- A reader takes a line as before, whatever the number of the line is. -/
theorem take_moved (r : Reader) (line : Line) : (r.moved f).take line = (r.take line).moved f := by
  unfold take
  split
  · split
    · exact define_moved f r _
    · split
      · exact addAlias_moved f r _ _
      · split
        · exact beginSection_moved f r _
        · rfl
  · exact code_moved f r _ _ _ _

theorem takeText_moved (r : Reader) (cs : List Char) :
    (r.moved f).takeText cs = (r.takeText cs).moved f := by
  unfold takeText
  split
  · rfl
  · split
    · exact take_moved f r _
    · exact fail_moved f r _

/-- What a moved reader has read is what the reader has read, moved. -/
theorem reading_moved (r : Reader) : (r.moved f).reading = r.reading.moved f := by
  rw [reading, sections_moved]
  rfl

/-! ## Reading what was laid out anew -/

variable {f}

/-- Reading lines that are laid out anew reads the same, at the new numbers of the lines. -/
theorem foldl_moved {n n' : Nat} {texts texts' : List (List Char)} (h : Relaid f n n' texts texts')
    (hlines : ∀ text ∈ texts', '\n' ∉ text) :
    ∀ r : Reader, r.line = n → ∃ last,
      texts'.foldl step ((r.moved f).atLine n') = ((texts.foldl step r).moved f).atLine last := by
  induction h with
  | done => exact fun r _ => ⟨_, rfl⟩
  | @kept n n' text text' texts texts' hplace htext hrest ih =>
      rintro r rfl
      have hhere : (r.moved f).atLine n' = r.moved f := by
        rw [← hplace]
        rfl
      have hstep : (r.moved f).step text' = ((r.step text).moved f).atLine (n' + 1) := by
        rw [step_eq, step_eq, htext.strip, takeText_moved, ← hplace]
        rfl
      rw [List.foldl_cons, List.foldl_cons, hhere, hstep]
      apply ih (fun text hmem => hlines text (List.mem_cons_of_mem _ hmem)) (r.step text)
      rw [step_eq]
      rfl
  | @added n n' text' texts texts' hidle hrest ih =>
      intro r hr
      rw [List.foldl_cons, step_of_isIdle hidle (hlines text' (List.mem_cons_self ..))]
      exact ih (fun text hmem => hlines text (List.mem_cons_of_mem _ hmem)) r hr

end Reader

end Reading

/-- A source that is laid out anew reads the same, at the new numbers of the lines. -/
theorem Reading.of_moved {source source' : String} {f : Nat → Nat}
    (h : Relaid f 0 0 (linesOf source) (linesOf source')) :
    Reading.of source' = (Reading.of source).moved f := by
  have hlines : ∀ text ∈ linesOf source', '\n' ∉ text := fun _ => not_mem_of_mem_splitAtSep
  obtain ⟨last, hfold⟩ := Reader.foldl_moved h hlines {} rfl
  have hstart : (Reader.moved f {}).atLine 0 = {} := rfl
  rw [hstart] at hfold
  rw [Reading.of, Reader.read, hfold, Reader.reading_close_atLine, Reader.close_moved,
    Reader.reading_moved]
  rfl

/-! ## Running what was moved -/

/-- The scope with its sections at the new numbers of the lines. -/
def Scope.moved (f : Nat → Nat) (scope : Scope) : Scope :=
  ⟨scope.visible.map (Section.moved f), scope.chosen.map (Section.moved f), scope.symbolNames⟩

/-- The outcome of the instruction at the new number of its line. -/
def Outcome.moved (f : Nat → Nat) (o : Outcome) : Outcome :=
  { o with instruction := o.instruction.moved f }

/-- The result at the new numbers of the lines. -/
def Assembly.moved (f : Nat → Nat) (a : Assembly) : Assembly :=
  { a with
    diagnostics := a.diagnostics.moved f
    sections := a.sections.map (Section.moved f) }

section Run

variable {table : Table} {options : Options} (f : Nat → Nat)

/-- An operand is resolved by names, positions and offsets, and these are not moved. -/
theorem resolveOperand_moved (scope : Scope) (address : Int) (token : String) (c : Constraint) :
    resolveOperand options (scope.moved f) address token c =
      resolveOperand options scope address token c := by
  apply resolveOperand_congr
  · funext token
    rw [Scope.unalias, Scope.moved, List.findSome?_map]
    rfl
  · exact Scope.find?_map fun _ => ⟨rfl, rfl, rfl⟩
  · funext name
    simp only [Scope.hidden, Scope.moved, List.any_map]
    rfl

theorem resolveOperands_moved (scope : Scope) (address : Int) (places : List (String × Constraint)) :
    resolveOperands options (scope.moved f) address places =
      resolveOperands options scope address places := by
  induction places with
  | nil => rfl
  | cons place places ih => simp only [resolveOperands, resolveOperand_moved, ih]

/-- What becomes of an instruction is moved with the instruction. -/
theorem assembleLine_moved (scope : Scope) (offset : Nat) (l : Instruction) :
    assembleLine table options (scope.moved f) offset (l.moved f) =
      (assembleLine table options scope offset l).map (Outcome.moved f) := by
  unfold assembleLine
  rw [show (l.moved f).opcode = l.opcode from rfl, show (l.moved f).operands = l.operands from rfl,
    show (l.moved f).position = l.position from rfl]
  split
  · rfl
  · split
    · rfl
    · rw [resolveOperands_moved]
      cases resolveOperands options scope _ _ with
      | error fault => rfl
      | ok resolved => rfl

theorem assembleLines_moved (scope : Scope) (offset : Nat) (lines : List Instruction) :
    assembleLines table options (scope.moved f) offset (lines.map (Instruction.moved f)) =
      (assembleLines table options scope offset lines).map (List.map (Outcome.moved f)) := by
  induction lines with
  | nil => rfl
  | cons l lines ih =>
      rw [List.map_cons, assembleLines, assembleLines, assembleLine_moved, ih]
      cases assembleLine table options scope offset l with
      | error fault => rfl
      | ok o => cases assembleLines table options scope offset lines <;> rfl

/-- A run is stopped by the same fault at the same section, or has the same outcomes, moved. -/
theorem assembleSections_moved (names : List String) (chosen rest : List Section) :
    ∀ before : List Section,
      assembleSections table options names (chosen.map (Section.moved f))
          (before.map (Section.moved f)) (rest.map (Section.moved f)) =
        (assembleSections table options names chosen before rest).map
          (List.map (Outcome.moved f)) := by
  induction rest with
  | nil => exact fun _ => rfl
  | cons s rest ih =>
      intro before
      have hvisible : before.map (Section.moved f) ++ [s.moved f] =
          (before ++ [s]).map (Section.moved f) := by
        rw [List.map_append, List.map_singleton]
      have hlines : ∀ scope : Scope,
          assembleLines table options (scope.moved f) s.offset (s.lines.map (Instruction.moved f)) =
            (assembleLines table options scope s.offset s.lines).map (List.map (Outcome.moved f)) :=
        fun scope => assembleLines_moved f scope s.offset s.lines
      rw [List.map_cons, assembleSections, assembleSections, hvisible]
      simp only [ih]
      rw [show (s.moved f).offset = s.offset from rfl,
        show (s.moved f).lines = s.lines.map (Instruction.moved f) from rfl,
        show (⟨(before ++ [s]).map (Section.moved f), chosen.map (Section.moved f), names⟩ : Scope) =
          Scope.moved f ⟨before ++ [s], chosen, names⟩ from rfl, hlines]
      cases assembleLines table options ⟨before ++ [s], chosen, names⟩ s.offset s.lines with
      | error fault =>
          simp only [Except.map, List.length_map]
      | ok first =>
          cases assembleSections table options names chosen (before ++ [s]) rest with
          | error stop => rfl
          | ok others => simp only [Except.map, List.map_append]

/-- Sections are placed by their sizes, which moving does not change. -/
theorem layoutFrom_moved (sections : List Section) :
    ∀ next : Nat, layoutFrom next (sections.map (Section.moved f)) =
      (layoutFrom next sections).map (Section.moved f) := by
  induction sections with
  | nil => exact fun _ => rfl
  | cons s rest ih =>
      intro next
      rw [List.map_cons, layoutFrom, layoutFrom, List.map_cons, ih, Section.moved_size]
      rfl

namespace Reading

/-- The sections of a run are those of the reading as it was, moved. -/
theorem chosen_moved (reading : Reading) (given : List String) :
    (reading.moved f).chosen given = (reading.chosen given).map (Section.moved f) := by
  rw [chosen, chosen, moved, choose_map (g := Section.moved f) fun _ => ⟨rfl, rfl⟩, layoutFrom_moved]

/-- A run of a moved reading has the outcomes of the reading as it was, moved. -/
theorem outcomes_moved (reading : Reading) :
    (reading.moved f).outcomes table options =
      (reading.outcomes table options).map (List.map (Outcome.moved f)) := by
  rw [outcomes, outcomes, chosen_moved]
  exact assembleSections_moved f _ _ _ []

end Reading

/-- The lines of output are the same, and each comes from the new number of its line. -/
theorem emitted_moved (outcomes : List Outcome) :
    emitted (outcomes.map (Outcome.moved f)) =
      (emitted outcomes).map fun line => (line.1, f line.2) := by
  rw [emitted, emitted, List.filterMap_map, List.map_filterMap]
  refine List.filterMap_congr fun o _ => ?_
  cases hline : o.line <;> simp [Outcome.moved, Instruction.moved, hline]

/-- Advisories are told by the lines of output in their order, and are given at the new numbers. -/
theorem advise_moved (advisories : List Advisory) (emission : List (String × Nat)) :
    ∀ count : Nat, advise advisories count (emission.map fun line => (line.1, f line.2)) =
      (advise advisories count emission).map (Remark.moved f) := by
  induction emission with
  | nil => exact fun _ => rfl
  | cons line emission ih =>
      intro count
      rw [List.map_cons, advise, advise, List.map_append, ih, List.map_map]
      rfl

/-- The errors of a run are given at the new numbers of the lines, in the same order. -/
theorem errorsOf_moved (outcomes : List Outcome) :
    errorsOf (outcomes.map (Outcome.moved f)) = (errorsOf outcomes).map (Remark.moved f) := by
  rw [errorsOf, errorsOf, List.flatMap_map, List.map_flatMap]
  refine List.flatMap_congr fun o _ => ?_
  rw [List.map_map]
  rfl

/-- The result of moved outcomes is the result of the outcomes, moved. -/
theorem ofOutcomes_moved (advisories : List Advisory) (reading : Reading) (chosen : List Section)
    (outcomes : List Outcome) :
    Assembly.ofOutcomes advisories (reading.moved f) (chosen.map (Section.moved f))
        (outcomes.map (Outcome.moved f)) =
      (Assembly.ofOutcomes advisories reading chosen outcomes).moved f := by
  simp only [Assembly.ofOutcomes, Assembly.moved, emitted_moved, advise_moved, errorsOf_moved,
    Reading.moved, Diagnostics.merge, Diagnostics.moved, List.map_map, List.map_append]
  rfl

end Run

/-- The second result is the first, except that the lines of the source have other numbers. -/
structure Assembly.SameBut (f : Nat → Nat) (a a' : Assembly) : Prop where
  lines : a'.lines = a.lines
  valid : a'.valid = a.valid
  placements : a'.placements = a.placements
  warnings : a'.diagnostics.warnings = a.diagnostics.warnings.map (Remark.moved f)
  errors : a'.diagnostics.errors = a.diagnostics.errors.map (Remark.moved f)

theorem Assembly.sameBut_moved (f : Nat → Nat) (a : Assembly) : a.SameBut f (a.moved f) where
  lines := rfl
  valid := Diagnostics.moved_valid f a.diagnostics
  placements := by
    simp only [Assembly.placements, Assembly.moved, List.map_map]
    refine List.map_congr_left fun s _ => ?_
    rw [Function.comp_apply, Section.moved_size]
    rfl
  warnings := rfl
  errors := rfl

/-- A source that is laid out anew gives the same result, at the new numbers of the lines. -/
theorem layout_immaterial {source source' : String} {f : Nat → Nat}
    (h : Relaid f 0 0 (linesOf source) (linesOf source')) (table : Table)
    (advisories : List Advisory) (options : Options) :
    Agree (Assembly.SameBut f) ((Reading.of source).assemble table advisories options).result
      ((Reading.of source').assemble table advisories options).result := by
  rw [Reading.of_moved h, Reading.assemble_result_eq, Reading.assemble_result_eq,
    Reading.outcomes_moved, Reading.chosen_moved,
    show ((Reading.of source).moved f).valid = (Reading.of source).valid from
      Diagnostics.moved_valid f _]
  split
  · cases (Reading.of source).outcomes table options with
    | error stop => exact .stopped
    | ok outcomes =>
        refine .finished ?_
        rw [ofOutcomes_moved]
        exact Assembly.sameBut_moved f _
  · refine .finished ?_
    have hrefused : Assembly.refused ((Reading.of source).moved f) =
        (Assembly.refused (Reading.of source)).moved f := by
      simp [Assembly.refused, Assembly.moved, Reading.moved, Diagnostics.fail, Diagnostics.moved,
        Remark.moved]
    rw [hrefused]
    exact Assembly.sameBut_moved f _

/-- A comment in front, an empty line between, and blanks at the ends of the lines. -/
theorem layout_immaterial_spread :
    Relaid (fun n => 2 * n + 1) 0 0 (linesOf "define x 5\nmove r0 y")
        (linesOf "; head\n\tdefine x 5\r\n\n  move r0 y") ∧
      ((Reading.of "; head\n\tdefine x 5\r\n\n  move r0 y").assemble .standard [] {}).result.map
          (·.diagnostics.errorTexts) = .ok ["Unable to resolve symbol y at line 3"] ∧
      Agree (Assembly.SameBut fun n => 2 * n + 1)
        ((Reading.of "define x 5\nmove r0 y").assemble .standard [] {}).result
        ((Reading.of "; head\n\tdefine x 5\r\n\n  move r0 y").assemble .standard [] {}).result := by
  have hbefore : linesOf "define x 5\nmove r0 y" = ["define x 5".toList, "move r0 y".toList] := by
    decide +kernel
  have hbehind : linesOf "; head\n\tdefine x 5\r\n\n  move r0 y" =
      ["; head".toList, '\t' :: "define x 5".toList ++ ['\r'], [],
        [' ', ' '] ++ "move r0 y".toList] := by
    decide +kernel
  have h : Relaid (fun n => 2 * n + 1) 0 0 (linesOf "define x 5\nmove r0 y")
      (linesOf "; head\n\tdefine x 5\r\n\n  move r0 y") := by
    rw [hbefore, hbehind]
    refine .added (by decide +kernel) (.kept rfl ?_ (.added rfl (.kept rfl ?_ .done)))
    · exact ⟨"define x 5".toList, [], [], ['\t'], ['\r'], by simp, List.all_eq_true.1 rfl, by simp,
        by simp⟩
    · exact ⟨"move r0 y".toList, [], [], [' ', ' '], [], by simp, List.all_eq_true.1 rfl, by simp,
        by simp⟩
  exact ⟨h, by decide +kernel, layout_immaterial h _ _ _⟩

end ChipAsm
