import ChipAsm.Proofs.Names
import ChipAsm.Proofs.SourceText

/-!
# The remarks on a line

A line adds at most one error, what is wrong with it (`Reader.fault?`), and it may add warnings, what is
doubtful about it (`Reader.doubts`).  Both depend on the names that the reader has met, and neither
depends on what it has remarked before.  So a reader with other remarks reads a line in the same way, and
adds the same remarks (`step_noting`).

What can be wrong with a line is never what is doubtful about one, so the problems of the warnings are
not those of the errors (`Reading.sorted`).
-/

namespace ChipAsm

open ChipAsm.Text ChipAsm.Token

namespace Reader

/-! ## What is wrong with a line -/

/-- What can be wrong with a line for a reader in front of it. -/
inductive Wrong (r : Reader) : Line → Problem → Prop where
  | defineCount {operands : List String} {comment : Option String} (count : operands.length ≠ 2) :
    Wrong r ⟨.directive "define", operands, comment⟩ .defineCount
  | aliasCount {operands : List String} {comment : Option String} (count : operands.length ≠ 2) :
    Wrong r ⟨.directive "alias", operands, comment⟩ .aliasCount
  | sectionName {comment : Option String} : Wrong r ⟨.directive "section", [], comment⟩ .sectionName
  | requirements {name : String} {words : List String} {comment : Option String} {problem : Problem}
    (found : (r.close.requirements words).2 = some problem) :
    Wrong r ⟨.directive "section", name :: words, comment⟩ problem
  | constant {name value : String} {comment : Option String} (known : name ∈ r.symbolNames) :
    Wrong r ⟨.directive "define", [name, value], comment⟩ (.duplicateSymbol name)
  | binding {name target : String} {comment : Option String} (known : name ∈ r.aliasNames)
    (other : isDevice target = false) :
    Wrong r ⟨.directive "alias", [name, target], comment⟩ (.duplicateAlias name)
  | label {name : String} {opcode : Option String} {operands : List String} {comment : Option String}
    (known : name ∈ r.symbolNames) :
    Wrong r ⟨.code (some name) opcode, operands, comment⟩ (.duplicateSymbol name)

/-- A line is faulted only for what can be wrong with it. -/
theorem wrong_of_fault? {r : Reader} {line : Line} {problem : Problem}
    (h : r.fault? line = some problem) : r.Wrong line problem := by
  obtain ⟨head, operands, comment⟩ := line
  cases head with
  | code label opcode =>
      cases label with
      | none => cases h
      | some name =>
          obtain ⟨hknown, hproblem⟩ := Option.ite_none_right_eq_some.1 h
          cases hproblem
          exact .label hknown
  | directive word =>
      simp only [fault?] at h
      split at h
      · rename_i hword
        subst hword
        rcases operands with _ | ⟨name, _ | ⟨value, _ | ⟨_, _⟩⟩⟩
        · cases h
          exact .defineCount (by simp)
        · cases h
          exact .defineCount (by simp)
        · obtain ⟨hknown, hproblem⟩ := Option.ite_none_right_eq_some.1 h
          cases hproblem
          exact .constant hknown
        · cases h
          exact .defineCount (by simp)
      · split at h
        · rename_i hword
          subst hword
          rcases operands with _ | ⟨name, _ | ⟨target, _ | ⟨_, _⟩⟩⟩
          · cases h
            exact .aliasCount (by simp)
          · cases h
            exact .aliasCount (by simp)
          · obtain ⟨⟨hknown, hother⟩, hproblem⟩ := Option.ite_none_right_eq_some.1 h
            cases hproblem
            exact .binding hknown hother
          · cases h
            exact .aliasCount (by simp)
        · split at h
          · rename_i hword
            subst hword
            cases operands with
            | nil =>
                cases h
                exact .sectionName
            | cons name words => exact .requirements h
          · cases h

/-- What can be wrong with the words behind the name of a section. -/
theorem requirements_problem {r : Reader} {words : List String} {problem : Problem}
    (h : (r.requirements words).2 = some problem) :
    problem = .sectionCount ∨ problem = .sectionForm ∨ ∃ name, problem = .missingPrerequisite name := by
  rcases words with _ | ⟨word, _ | ⟨name, names⟩⟩
  · cases h
  · cases h
    exact .inl rfl
  · rw [requirements] at h
    · split at h
      · obtain ⟨missing, -, rfl⟩ := Option.map_eq_some_iff.1 h
        exact .inr (.inr ⟨missing, rfl⟩)
      · cases h
        exact .inr (.inl rfl)
    · simp

/-! ## What is doubtful about a line -/

/-- What is doubtful about a line for a reader in front of it. -/
def doubts (r : Reader) (line : Line) : List Problem :=
  match line.statement.alias? with
  | none => []
  | some (name, target) =>
    (if name ∈ r.aliasNames ∧ isDevice target = true then [.reboundDevice name] else [])
      ++ if isDevice target = true ∨ isRegister target = true then [] else [.doubtfulTarget target]

/-- Problems as remarks at the line of the reader. -/
def here (r : Reader) (problems : List Problem) : List Remark :=
  problems.map fun problem => ⟨problem, some (r.line : Int)⟩

theorem filter_here (r : Reader) (problems : List Problem) (problem : Problem) :
    (r.here problems).filter (fun e => e.problem = problem) =
      r.here (problems.filter fun found => found = problem) := by
  rw [here, List.filter_map]
  rfl

/-- A symbol that is defined again is an error, so it is not warned of. -/
theorem addSymbol_warnings (r : Reader) (symbol : Symbol) :
    (r.addSymbol symbol).diagnostics.warnings = r.diagnostics.warnings := by
  rw [addSymbol]
  split
  · rfl
  · rfl

theorem code_warnings (r : Reader) (label opcode : Option String) (operands : List String)
    (comment : Option String) :
    (r.code label opcode operands comment).diagnostics.warnings = r.diagnostics.warnings := by
  have hmark : (r.code label opcode operands comment).diagnostics = (r.mark label).diagnostics := by
    cases opcode <;> rfl
  rw [hmark]
  cases label with
  | none => rfl
  | some name => exact r.addSymbol_warnings _

/-- A name that is bound again is warned of if it is bound to a device. -/
theorem noteAlias_warnings (r : Reader) (name target : String) :
    (r.noteAlias name target).diagnostics.warnings =
      r.diagnostics.warnings ++ r.here
        (if name ∈ r.aliasNames ∧ isDevice target = true then [.reboundDevice name] else []) := by
  rw [noteAlias]
  by_cases hname : name ∈ r.aliasNames
  · cases hdevice : isDevice target with
    | true => simp [hname, here, warn, Diagnostics.warn]
    | false => simp [hname, here, fail, Diagnostics.fail]
  · simp [hname, here]

theorem noteAlias_line (r : Reader) (name target : String) :
    (r.noteAlias name target).line = r.line := by
  rw [noteAlias]
  split
  · split <;> rfl
  · rfl

/-- A target that is neither a device nor a register is warned of. -/
theorem keepAlias_warnings (r : Reader) (name target : String) (comment : Option String) :
    (r.keepAlias name target comment).diagnostics.warnings =
      r.diagnostics.warnings ++ r.here
        (if isDevice target = true ∨ isRegister target = true then []
          else [.doubtfulTarget target]) := by
  rw [keepAlias]
  cases hdevice : isDevice target with
  | true => simp [here, addLine]
  | false =>
      cases hregister : isRegister target with
      | true => simp [here]
      | false => simp [here, warn, Diagnostics.warn]

/-- Binding a name warns of both, and of the name first. -/
theorem addAlias_warnings (r : Reader) (name target : String) (comment : Option String) :
    (r.addAlias [name, target] comment).diagnostics.warnings =
      r.diagnostics.warnings ++ r.here
        ((if name ∈ r.aliasNames ∧ isDevice target = true then [.reboundDevice name] else [])
          ++ if isDevice target = true ∨ isRegister target = true then []
            else [.doubtfulTarget target]) := by
  have hkeep := keepAlias_warnings (r.noteAlias name target) name target comment
  rw [noteAlias_warnings, List.append_assoc] at hkeep
  simp only [here, noteAlias_line] at hkeep
  rw [here, List.map_append]
  exact hkeep

theorem beginSection_warnings (r : Reader) (name : String) (words : List String) :
    (r.beginSection (name :: words)).diagnostics.warnings = r.diagnostics.warnings := by
  rw [beginSection]
  simp only
  cases (r.close.requirements words).2 with
  | none => simp only [start, close_diagnostics]
  | some problem => simp only [start, fail, Diagnostics.fail, close_diagnostics]

/-- A line adds what is doubtful about it to the warnings, and nothing else. -/
theorem take_doubts (r : Reader) (line : Line) :
    (r.take line).diagnostics.warnings = r.diagnostics.warnings ++ r.here (r.doubts line) := by
  have hnothing : r.diagnostics.warnings = r.diagnostics.warnings ++ r.here [] :=
    (List.append_nil _).symm
  obtain ⟨head, operands, comment⟩ := line
  cases head with
  | code label opcode => exact (r.code_warnings ..).trans hnothing
  | directive word =>
      by_cases hdefine : word = "define"
      · subst hdefine
        rcases operands with _ | ⟨name, _ | ⟨value, _ | ⟨_, _⟩⟩⟩
        · exact hnothing
        · exact hnothing
        · exact (r.addSymbol_warnings _).trans hnothing
        · exact hnothing
      by_cases halias : word = "alias"
      · subst halias
        rcases operands with _ | ⟨name, _ | ⟨target, _ | ⟨_, _⟩⟩⟩
        · exact hnothing
        · exact hnothing
        · exact r.addAlias_warnings name target comment
        · exact hnothing
      by_cases hsection : word = "section"
      · subst hsection
        cases operands with
        | nil => exact hnothing
        | cons name words => exact (r.beginSection_warnings name words).trans hnothing
      · simpa [take, doubts, Line.statement, Statement.ofDirective, Statement.alias?, hdefine, halias,
          hsection] using hnothing

/-! ## What a line adds -/

/-- The remarks that a line adds. -/
def remarks (r : Reader) (line : Line) : Diagnostics :=
  ⟨r.here (r.doubts line), r.here (r.fault? line).toList⟩

/-- The remarks that a text adds. -/
def textRemarks (r : Reader) (text : List Char) : Diagnostics :=
  ⟨r.here ((Line.ofText? text).toList.flatMap r.doubts), r.here (r.textFault? text).toList⟩

/-- A line adds its remarks behind those that are there. -/
theorem take_diagnostics (r : Reader) (line : Line) :
    (r.take line).diagnostics = r.diagnostics.merge (r.remarks line) := by
  have herrors : (r.take line).diagnostics.errors =
      r.diagnostics.errors ++ r.here (r.fault? line).toList := r.take_fault line
  rw [Diagnostics.merge, remarks, ← take_doubts, ← herrors]

theorem textFault?_of_some {r : Reader} {text : List Char} {line : Line}
    (h : Line.ofText? text = some line) : r.textFault? text = r.fault? line := by
  rw [Line.ofText?] at h
  rw [textFault?]
  cases hcs : stripChars text with
  | nil => rw [hcs] at h; cases h
  | cons c cs =>
      rw [hcs] at h
      simp only at h ⊢
      rw [h]

/-- The only thing that can be wrong with a text that holds no line. -/
theorem textFault?_of_none {r : Reader} {text : List Char} {problem : Problem}
    (h : Line.ofText? text = none) (hproblem : r.textFault? text = some problem) :
    problem = .unrecognized := by
  rw [Line.ofText?] at h
  rw [textFault?] at hproblem
  cases hcs : stripChars text with
  | nil => rw [hcs] at hproblem; cases hproblem
  | cons c cs =>
      rw [hcs] at h hproblem
      simp only at h hproblem
      rw [h] at hproblem
      exact (Option.some.inj hproblem).symm

theorem textRemarks_of_some {r : Reader} {text : List Char} {line : Line}
    (h : Line.ofText? text = some line) : r.textRemarks text = r.remarks line := by
  rw [textRemarks, textFault?_of_some h, h]
  simp [remarks]

/-- A text that holds no line is passed over, with an error if it is not blank. -/
theorem step_of_no_line {r : Reader} {text : List Char} (h : Line.ofText? text = none) :
    r.step text =
      { r with diagnostics := r.diagnostics.merge (r.textRemarks text), line := r.line + 1 } := by
  rw [textRemarks, h]
  unfold textFault? step takeText
  rw [Line.ofText?] at h
  cases hcs : stripChars text with
  | nil => simp [here, Diagnostics.merge]
  | cons c cs =>
      rw [hcs] at h
      simp only at h
      simp [h, here, Diagnostics.merge, fail, Diagnostics.fail]

/-! ## Other remarks -/

/-- The reader with other remarks. -/
def noting (r : Reader) (d : Diagnostics) : Reader := { r with diagnostics := d }

theorem close_noting (r : Reader) (d : Diagnostics) : (r.noting d).close = r.close.noting d := by
  unfold close
  rw [show (r.noting d).current = r.current from rfl, show (r.noting d).declared = r.declared from rfl]
  split
  · split <;> rfl
  · rfl

theorem requirements_noting (r : Reader) (d : Diagnostics) (words : List String) :
    (r.noting d).requirements words = r.requirements words := by
  rcases words with _ | ⟨word, _ | ⟨name, names⟩⟩
  · rfl
  · rfl
  · rfl

/-- What is wrong with a line does not depend on the remarks on earlier lines. -/
theorem fault?_noting (r : Reader) (d : Diagnostics) (line : Line) :
    (r.noting d).fault? line = r.fault? line := by
  simp only [fault?, close_noting, requirements_noting]
  rfl

theorem textFault?_noting (r : Reader) (d : Diagnostics) (text : List Char) :
    (r.noting d).textFault? text = r.textFault? text := by
  simp only [textFault?, fault?_noting]

/-- A reader with other remarks takes a line in the same way, and adds the same remarks. -/
theorem take_noting (r : Reader) (d : Diagnostics) (line : Line) :
    (r.noting d).take line = (r.take line).noting (d.merge (r.remarks line)) := by
  have hdiagnostics : ((r.noting d).take line).diagnostics = d.merge (r.remarks line) := by
    rw [take_diagnostics, remarks, fault?_noting]
    rfl
  cases hopening : line.statement.opening? with
  | none =>
      have hnoting := (take_absorbs (r := r.noting d) hopening).eq
      have htake := (take_absorbs (r := r) hopening).eq
      rw [hdiagnostics, take_aliasNames] at hnoting
      rw [take_aliasNames] at htake
      rw [hnoting, htake]
      rfl
  | some opened =>
      obtain ⟨d', -, hnoting⟩ := take_opening (r := r.noting d) hopening
      obtain ⟨d'', -, htake⟩ := take_opening (r := r) hopening
      rw [hnoting] at hdiagnostics
      rw [hnoting, htake, close_noting, ← hdiagnostics]
      rfl

/-- A reader with other remarks reads a text in the same way, and adds the same remarks. -/
theorem step_noting (r : Reader) (d : Diagnostics) (text : List Char) :
    (r.noting d).step text = (r.step text).noting (d.merge (r.textRemarks text)) := by
  cases hline : Line.ofText? text with
  | none =>
      rw [step_of_no_line hline, step_of_no_line hline, textRemarks, textFault?_noting]
      rfl
  | some line =>
      rw [step_of_some hline, step_of_some hline, take_noting, textRemarks_of_some hline]
      rfl

/-- A text adds its remarks behind those that are there. -/
theorem step_diagnostics (r : Reader) (text : List Char) :
    (r.step text).diagnostics = r.diagnostics.merge (r.textRemarks text) := by
  cases hline : Line.ofText? text with
  | none => rw [step_of_no_line hline]
  | some line =>
      rw [step_of_some hline, textRemarks_of_some hline, ← take_diagnostics]

end Reader

/-- The end of a source adds no remark. -/
theorem Reading.of_diagnostics (source : String) :
    (Reading.of source).diagnostics = ((linesOf source).foldl Reader.step {}).diagnostics := by
  rw [Reading.of, Reader.reading, Reader.read, Reader.close_diagnostics]

/-! ## Errors and warnings -/

/-- The problem is one that a line is warned of. -/
def Problem.isDoubt : Problem → Bool
  | .reboundDevice _ | .doubtfulTarget _ => true
  | _ => false

/-- The warnings are doubts, and the errors are not. -/
structure Diagnostics.Sorted (d : Diagnostics) : Prop where
  warnings : ∀ e ∈ d.warnings, e.problem.isDoubt = true
  errors : ∀ e ∈ d.errors, e.problem.isDoubt = false

theorem Diagnostics.Sorted.merge {d e : Diagnostics} (hd : d.Sorted) (he : e.Sorted) :
    (d.merge e).Sorted :=
  ⟨List.forall_mem_append.2 ⟨hd.warnings, he.warnings⟩,
    List.forall_mem_append.2 ⟨hd.errors, he.errors⟩⟩

namespace Reader

theorem isDoubt_of_mem_doubts {r : Reader} {line : Line} {problem : Problem}
    (h : problem ∈ r.doubts line) : problem.isDoubt = true := by
  rw [doubts] at h
  split at h
  · cases h
  · rcases List.mem_append.1 h with h | h
    · split at h
      · obtain rfl := List.mem_singleton.1 h
        rfl
      · cases h
    · split at h
      · cases h
      · obtain rfl := List.mem_singleton.1 h
        rfl

theorem isDoubt_of_fault? {r : Reader} {line : Line} {problem : Problem}
    (h : r.fault? line = some problem) : problem.isDoubt = false := by
  cases wrong_of_fault? h with
  | requirements found =>
      obtain rfl | rfl | ⟨name, rfl⟩ := requirements_problem found
      all_goals rfl
  | defineCount | aliasCount | sectionName | constant | binding | label => rfl

/-- The remarks on a text are errors if something is wrong, and warnings if something is doubtful. -/
theorem textRemarks_sorted (r : Reader) (text : List Char) : (r.textRemarks text).Sorted := by
  constructor
  · intro e he
    obtain ⟨problem, hproblem, rfl⟩ := List.mem_map.1 he
    obtain ⟨line, -, hdoubt⟩ := List.mem_flatMap.1 hproblem
    exact isDoubt_of_mem_doubts hdoubt
  · intro e he
    obtain ⟨problem, hproblem, rfl⟩ := List.mem_map.1 he
    rw [Option.mem_toList] at hproblem
    cases hline : Line.ofText? text with
    | none =>
        obtain rfl := textFault?_of_none hline hproblem
        rfl
    | some line =>
        rw [textFault?_of_some hline] at hproblem
        exact isDoubt_of_fault? hproblem

theorem foldl_sorted (texts : List (List Char)) :
    ∀ {r : Reader}, r.diagnostics.Sorted → (texts.foldl step r).diagnostics.Sorted := by
  induction texts with
  | nil => exact id
  | cons text texts ih =>
      intro r h
      refine ih ?_
      rw [step_diagnostics]
      exact h.merge (r.textRemarks_sorted text)

end Reader

/-- No problem is an error at one line of a source and a warning at another. -/
theorem Reading.sorted (source : String) : (Reading.of source).diagnostics.Sorted := by
  rw [Reading.of_diagnostics]
  have hstart : Diagnostics.Sorted {} := ⟨by simp, by simp⟩
  exact Reader.foldl_sorted _ hstart

end ChipAsm
