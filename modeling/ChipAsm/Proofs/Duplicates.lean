import ChipAsm.Proofs.Binding
import ChipAsm.Proofs.Filtering
import ChipAsm.Proofs.Remarks

/-!
# Names that are defined again

A reader remembers the names of the symbols that it has met, in whatever section, and the same of
aliases.  A line that defines a symbol of such a name is reported and has no other effect on the symbols.
A line that binds an alias of such a name is reported too; this is a warning if the name is bound to a
device, because devices are bound anew when the chip runs.

So of all lines that define a name the first is taken and the others are reported, each once and at its own
number (`duplicates_told`).  This is one induction on the lines of a source, for any kind of remark that is
made of every line of some sort but the first (`Reader.Tallies`).
-/

namespace ChipAsm

open ChipAsm.Text ChipAsm.Token

/-! ## Definitions and bindings -/

/-- The name of the symbol that a line defines: that of a definition with two operands, or the label of a
code line. -/
def SourceLine.symbolName? (l : SourceLine) : Option String :=
  match l.line.head, l.line.operands with
  | .code label _, _ => label
  | .directive word, [name, _] => if word = "define" then some name else none
  | .directive _, _ => none

/-- The lines of a source that define a symbol of the name. -/
def definitionsOf (source name : String) : List SourceLine :=
  (sourceLines source).filter fun l => l.symbolName? = some name

/-- The lines of a source that bind an alias of the name. -/
def bindingsOf (source name : String) : List SourceLine :=
  (sourceLines source).filter fun l => (l.target? name).isSome

/-- The line binds the name to a device. -/
def SourceLine.bindsDevice (name : String) (l : SourceLine) : Bool := (l.target? name).any isDevice

theorem symbolName?_eq (l : SourceLine) : l.symbolName? = l.line.statement.defined? := by
  obtain ⟨number, head, operands, comment⟩ := l
  cases head with
  | code label opcode => cases label <;> rfl
  | directive word =>
      by_cases hdefine : word = "define"
      · subst hdefine
        rcases operands with _ | ⟨name, _ | ⟨value, _ | ⟨_, _⟩⟩⟩ <;> rfl
      have hnone : (Statement.ofDirective word operands).defined? = none := by
        simp only [Statement.ofDirective, if_neg hdefine]
        repeat' split
        all_goals rfl
      have hname : (⟨number, .directive word, operands, comment⟩ : SourceLine).symbolName? = none := by
        rcases operands with _ | ⟨name, _ | ⟨value, _ | ⟨_, _⟩⟩⟩ <;>
          simp [SourceLine.symbolName?, hdefine]
      rw [hname]
      exact hnone.symm

theorem isSome_of_bindsDevice {l : SourceLine} {name : String} (h : l.bindsDevice name = true) :
    (l.target? name).isSome = true := by
  rw [SourceLine.bindsDevice] at h
  cases htarget : l.target? name with
  | none => rw [htarget] at h; cases h
  | some target => rfl

/-! ## Remarks on all lines but the first -/

namespace Reader

theorem step_line (r : Reader) (text : List Char) : (r.step text).line = r.line + 1 := by
  rw [step_eq]
  rfl

/-- Lines that pass a test are remarked on, all but the first, if they are to be reported at all.  The
reader knows whether it has met one. -/
structure Tallies (test reported : SourceLine → Bool) (problem : Problem) (knows : Reader → Bool)
    (made : Reader → List Remark) : Prop where
  passed : ∀ {r : Reader} {text : List Char}, Line.ofText? text = none →
    knows (r.step text) = knows r ∧ made (r.step text) = made r
  taken : ∀ {r : Reader} {text : List Char} {line : Line}, Line.ofText? text = some line →
    knows (r.step text) = (knows r || test ⟨r.line, line⟩) ∧
      made (r.step text) =
        made r ++ if knows r && test ⟨r.line, line⟩ && reported ⟨r.line, line⟩ then
          [⟨problem, some (r.line : Int)⟩] else []

variable {test reported : SourceLine → Bool} {problem : Problem} {knows : Reader → Bool}
  {made : Reader → List Remark}

theorem Tallies.knows_foldl (h : Tallies test reported problem knows made) (texts : List (List Char)) :
    ∀ r : Reader, knows (texts.foldl step r) = (knows r || (numberedFrom r.line texts).any test) := by
  induction texts with
  | nil => exact fun r => (Bool.or_false _).symm
  | cons text texts ih =>
      intro r
      rw [List.foldl_cons, ih, step_line, numberedFrom]
      cases hline : Line.ofText? text with
      | none => rw [(h.passed hline).1]
      | some line => rw [(h.taken hline).1, List.any_cons, Bool.or_assoc]

/-- Once a line of the sort is known, all that follow are remarked on; before, all but the first. -/
theorem Tallies.made_foldl (h : Tallies test reported problem knows made) (texts : List (List Char)) :
    ∀ r : Reader, made (texts.foldl step r) =
      made r ++ ((if knows r then (numberedFrom r.line texts).filter test
        else ((numberedFrom r.line texts).filter test).tail).filter reported).map
          fun l => ⟨problem, some (l.number : Int)⟩ := by
  induction texts with
  | nil =>
      intro r
      cases hknows : knows r <;> simp [numberedFrom]
  | cons text texts ih =>
      intro r
      rw [List.foldl_cons, ih, step_line, numberedFrom]
      cases hline : Line.ofText? text with
      | none => rw [(h.passed hline).1, (h.passed hline).2]
      | some line =>
          rw [(h.taken hline).1, (h.taken hline).2]
          cases hknows : knows r <;> cases htest : test ⟨r.line, line⟩ <;>
            cases hreported : reported ⟨r.line, line⟩ <;> simp [htest, hreported]

/-- In a whole source, all lines of a sort but the first are remarked on. -/
theorem Tallies.made_read (h : Tallies test reported problem knows made) (hknows : knows {} = false)
    (hmade : made {} = []) (source : String) :
    made ((linesOf source).foldl step {}) =
      (((sourceLines source).filter test).tail.filter reported).map
        fun l => ⟨problem, some (l.number : Int)⟩ := by
  rw [h.made_foldl, hknows, hmade, List.nil_append]
  rfl

end Reader

/-! ## What is said of a name -/

namespace Reader

theorem fault?_eq_duplicateSymbol_iff {r : Reader} {l : SourceLine} {name : String} :
    r.fault? l.line = some (.duplicateSymbol name) ↔
      name ∈ r.symbolNames ∧ l.symbolName? = some name := by
  constructor
  · intro h
    obtain ⟨number, line⟩ := l
    cases wrong_of_fault? h with
    | requirements found =>
        obtain hproblem | hproblem | ⟨_, hproblem⟩ := requirements_problem found
        all_goals cases hproblem
    | constant known => exact ⟨known, rfl⟩
    | label known => exact ⟨known, rfl⟩
  · rintro ⟨hknown, hname⟩
    obtain ⟨number, head, operands, comment⟩ := l
    cases head with
    | code label opcode =>
        obtain rfl : label = some name := hname
        exact if_pos hknown
    | directive word =>
        rcases operands with _ | ⟨first, _ | ⟨value, _ | ⟨_, _⟩⟩⟩
        · cases hname
        · cases hname
        · obtain ⟨rfl, hfirst⟩ := Option.ite_none_right_eq_some.1 hname
          cases hfirst
          exact if_pos hknown
        · cases hname

theorem fault?_eq_duplicateAlias_iff {r : Reader} {l : SourceLine} {name : String} :
    r.fault? l.line = some (.duplicateAlias name) ↔
      name ∈ r.aliasNames ∧ (l.target? name).isSome = true ∧ l.bindsDevice name = false := by
  constructor
  · intro h
    obtain ⟨number, line⟩ := l
    cases wrong_of_fault? h with
    | requirements found =>
        obtain hproblem | hproblem | ⟨_, hproblem⟩ := requirements_problem found
        all_goals cases hproblem
    | binding known other =>
        refine ⟨known, ?_, ?_⟩
        · simp [SourceLine.target?]
        · simp [SourceLine.bindsDevice, SourceLine.target?, other]
  · rintro ⟨hknown, hbinds, hother⟩
    obtain ⟨number, head, operands, comment⟩ := l
    cases head with
    | code label opcode => cases hbinds
    | directive word =>
        rcases operands with _ | ⟨bound, _ | ⟨target, _ | ⟨_, _⟩⟩⟩
        · cases hbinds
        · cases hbinds
        · by_cases hword : word = "alias" ∧ bound = name
          · obtain ⟨rfl, rfl⟩ := hword
            have hdevice : isDevice target = false := by
              simpa [SourceLine.bindsDevice, SourceLine.target?] using hother
            exact if_pos ⟨hknown, hdevice⟩
          · simp [SourceLine.target?, hword] at hbinds
        · cases hbinds

/-- A line warns of a device that is bound again if it binds a name that is known to a device. -/
theorem filter_doubts (r : Reader) (l : SourceLine) (name : String) :
    (r.doubts l.line).filter (fun problem => problem = .reboundDevice name) =
      if name ∈ r.aliasNames ∧ l.bindsDevice name = true then [.reboundDevice name] else [] := by
  have hdoubtful : ∀ target : String,
      ((if isDevice target = true ∨ isRegister target = true then []
        else [Problem.doubtfulTarget target]).filter fun problem => problem = .reboundDevice name) =
          [] := by
    intro target
    split <;> simp
  rw [SourceLine.bindsDevice, target?_eq, doubts]
  cases halias : l.line.statement.alias? with
  | none => simp
  | some pair =>
      obtain ⟨bound, target⟩ := pair
      simp only [List.filter_append, hdoubtful, List.append_nil, Option.bind_some, targetOf]
      by_cases hbound : bound = name
      · subst hbound
        simp only [if_true, Option.any_some]
        split <;> simp
      · simp only [if_neg hbound, Option.any_none, Bool.false_eq_true, and_false, if_false]
        split <;> simp [hbound]

end Reader

/-! ## Three tallies -/

/-- The remarks with a problem. -/
def remarksAbout (problem : Problem) (remarks : List Remark) : List Remark :=
  remarks.filter fun e => e.problem = problem

namespace Reader

/-- A step adds an error with a problem if and only if this is what is wrong with its text. -/
theorem errorsAbout_step (r : Reader) (text : List Char) (problem : Problem) :
    remarksAbout problem (r.step text).diagnostics.errors =
      remarksAbout problem r.diagnostics.errors ++
        r.here ((r.textFault? text).toList.filter fun found => found = problem) := by
  rw [remarksAbout, step_diagnostics, Diagnostics.merge, List.filter_append, textRemarks, filter_here]
  rfl

theorem warningsAbout_step (r : Reader) (text : List Char) (problem : Problem) :
    remarksAbout problem (r.step text).diagnostics.warnings =
      remarksAbout problem r.diagnostics.warnings ++
        r.here (((Line.ofText? text).toList.flatMap r.doubts).filter fun found => found = problem) := by
  rw [remarksAbout, step_diagnostics, Diagnostics.merge, List.filter_append, textRemarks, filter_here]
  rfl

/-- A text that holds no line adds no error but that it is not recognised. -/
theorem errorsAbout_step_of_none {r : Reader} {text : List Char} {problem : Problem}
    (h : Line.ofText? text = none) (hproblem : problem ≠ .unrecognized) :
    remarksAbout problem (r.step text).diagnostics.errors =
      remarksAbout problem r.diagnostics.errors := by
  rw [errorsAbout_step]
  cases hfault : r.textFault? text with
  | none => exact List.append_nil _
  | some found =>
      have hother : found ≠ problem := fun heq => hproblem (heq ▸ textFault?_of_none h hfault)
      simp [hother, here]

theorem errorsAbout_step_of_some {r : Reader} {text : List Char} {line : Line} {problem : Problem}
    {p : Prop} [Decidable p] (h : Line.ofText? text = some line)
    (hfault : r.fault? line = some problem ↔ p) :
    remarksAbout problem (r.step text).diagnostics.errors =
      remarksAbout problem r.diagnostics.errors ++
        if p then [⟨problem, some (r.line : Int)⟩] else [] := by
  rw [errorsAbout_step, textFault?_of_some h]
  congr 1
  by_cases hp : p
  · rw [if_pos hp, hfault.2 hp]
    simp [here]
  · rw [if_neg hp]
    cases hfound : r.fault? line with
    | none => rfl
    | some found =>
        have hother : found ≠ problem := fun heq => hp (hfault.1 (heq ▸ hfound))
        simp [hother, here]

theorem tallies_symbols (name : String) :
    Tallies (fun l => l.symbolName? = some name) (fun _ => true) (.duplicateSymbol name)
      (fun r => name ∈ r.symbolNames)
      (fun r => remarksAbout (.duplicateSymbol name) r.diagnostics.errors) where
  passed := by
    intro r text h
    refine ⟨?_, errorsAbout_step_of_none h (by simp)⟩
    rw [step_of_no_line h]
  taken := by
    intro r text line h
    constructor
    · rw [step_of_some h, ← Bool.decide_or, decide_eq_decide, symbolName?_eq]
      exact mem_take_symbolNames
    · rw [errorsAbout_step_of_some h (fault?_eq_duplicateSymbol_iff (l := ⟨r.line, line⟩))]
      simp only [Bool.and_eq_true, Bool.and_true, decide_eq_true_eq]

theorem knows_alias_step {r : Reader} {text : List Char} {line : Line} {name : String}
    (h : Line.ofText? text = some line) :
    decide (name ∈ (r.step text).aliasNames) =
      (decide (name ∈ r.aliasNames) || ((⟨r.line, line⟩ : SourceLine).target? name).isSome) := by
  have hbinds : ((⟨r.line, line⟩ : SourceLine).target? name).isSome = true ↔
      ∃ target, line.statement.alias? = some (name, target) := by
    rw [target?_eq]
    cases line.statement.alias? with
    | none => simp
    | some pair => simp [targetOf, Prod.ext_iff]
  rw [Bool.eq_iff_iff, Bool.or_eq_true, decide_eq_true_eq, decide_eq_true_eq, hbinds, step_of_some h]
  exact mem_take_aliasNames

theorem tallies_aliases (name : String) :
    Tallies (fun l => (l.target? name).isSome) (fun l => !l.bindsDevice name) (.duplicateAlias name)
      (fun r => name ∈ r.aliasNames)
      (fun r => remarksAbout (.duplicateAlias name) r.diagnostics.errors) where
  passed := by
    intro r text h
    refine ⟨?_, errorsAbout_step_of_none h (by simp)⟩
    rw [step_of_no_line h]
  taken := by
    intro r text line h
    refine ⟨knows_alias_step h, ?_⟩
    rw [errorsAbout_step_of_some h (fault?_eq_duplicateAlias_iff (l := ⟨r.line, line⟩))]
    simp only [Bool.and_eq_true, Bool.not_eq_true', decide_eq_true_eq, and_assoc]

theorem tallies_devices (name : String) :
    Tallies (fun l => (l.target? name).isSome) (fun l => l.bindsDevice name) (.reboundDevice name)
      (fun r => name ∈ r.aliasNames)
      (fun r => remarksAbout (.reboundDevice name) r.diagnostics.warnings) where
  passed := by
    intro r text h
    rw [warningsAbout_step, step_of_no_line h, h]
    exact ⟨rfl, List.append_nil _⟩
  taken := by
    intro r text line h
    refine ⟨knows_alias_step h, ?_⟩
    rw [warningsAbout_step, h, Option.toList_some, List.flatMap_singleton,
      filter_doubts r ⟨r.line, line⟩ name]
    congr 1
    by_cases hname : name ∈ r.aliasNames
    · cases hdevice : SourceLine.bindsDevice name ⟨r.line, line⟩ with
      | true => simp [hname, here, isSome_of_bindsDevice hdevice]
      | false => simp [here]
    · simp [hname, here]

end Reader

/-! ## The first definition -/

/-- The symbols of a program that have the name, each with the section that holds it. -/
def Program.symbolsNamed (p : Program) (name : String) : List (Section × Symbol) :=
  (p.sections.flatMap fun s => s.symbols.map fun d => (s, d)).filter fun owned => owned.2.name = name

theorem filter_eq_singleton {α β : Type} [DecidableEq β] {f : α → β} {xs : List α} {x : α}
    (h : (xs.map f).Nodup) (hx : x ∈ xs) : xs.filter (fun y => f y = f x) = [x] := by
  obtain ⟨front, behind, rfl⟩ := List.append_of_mem hx
  rw [List.map_append, List.map_cons, List.nodup_middle, List.nodup_cons, List.mem_append] at h
  have hother : ∀ {ys : List α}, f x ∉ ys.map f → ys.filter (fun y => f y = f x) = [] := by
    intro ys hys
    refine List.filter_eq_nil_iff.2 fun y hy heq => ?_
    exact hys (List.mem_map.2 ⟨y, hy, of_decide_eq_true heq⟩)
  rw [List.filter_append, List.filter_cons_of_pos (by simp), hother fun hmem => h.1 (.inl hmem),
    hother fun hmem => h.1 (.inr hmem), List.nil_append]

/-- A symbol of a program is the only one of its name. -/
theorem symbolsNamed_eq {source : String} {s : Section} {d : Symbol}
    (hs : s ∈ (Reading.of source).program.sections) (hd : d ∈ s.symbols) :
    (Reading.of source).program.symbolsNamed d.name = [(s, d)] := by
  have hnodup := symbolNames_nodup source
  rw [symbolNames_eq] at hnodup
  have hnames : (((Reading.of source).program.sections.flatMap fun s => s.symbols.map fun d =>
      (s, d)).map fun owned => owned.2.name).Nodup := by
    simp only [List.map_flatMap, List.map_map]
    exact hnodup
  exact filter_eq_singleton hnames (List.mem_flatMap.2 ⟨s, hs, List.mem_map_of_mem hd⟩)

/-- A name that some line defines is that of a symbol of the program. -/
theorem mem_symbolNames_of_definition {source name : String} {l : SourceLine}
    (hl : l ∈ definitionsOf source name) : name ∈ (Reading.of source).program.symbolNames := by
  have hknows := (Reader.tallies_symbols name).knows_foldl (linesOf source) {}
  have hany : (sourceLines source).any (fun l => l.symbolName? = some name) = true :=
    List.any_eq_true.2 ⟨l, List.mem_filter.1 hl⟩
  rw [show numberedFrom (Reader.line {}) (linesOf source) = sourceLines source from rfl, hany,
    Bool.or_true, decide_eq_true_eq] at hknows
  rw [Reading.of, Reader.reading, Reader.read]
  exact (Reader.close_symbolNames _).symm ▸ hknows

/-- The section and the symbol that the first line to define a name makes. -/
theorem owner_of_first {source name : String} {l : SourceLine}
    (h : (definitionsOf source name).head? = some l) :
    ∃ b s before after d, IsSectionOf source b s ∧ b.lines = before ++ l :: after ∧
      l.line.statement.symbol? s.ordinal (instructionsFrom 0 before).length = some d ∧
      d.home = s.ordinal ∧ (Reading.of source).program.symbolsNamed name = [(s, d)] := by
  have hl := List.mem_of_head? h
  have hname := mem_symbolNames_of_definition hl
  rw [symbolNames_eq, List.mem_flatMap] at hname
  obtain ⟨s, hs, hname⟩ := hname
  obtain ⟨d, hd, rfl⟩ := List.mem_map.1 hname
  obtain ⟨b, hb⟩ := exists_isSectionOf hs
  obtain ⟨before, l', after, hlines, hl', hfirst⟩ := first_definition hb hd
  have hdefines : l' ∈ definitionsOf source d.name := by
    obtain ⟨i, hi, -⟩ := hb
    refine List.mem_filter.2 ⟨mem_sourceLines_of_mem_bodies (List.mem_of_getElem? hi) ?_, ?_⟩
    · rw [hlines]
      exact List.mem_append_right _ (List.mem_cons_self ..)
    · rw [decide_eq_true_eq, symbolName?_eq, Statement.defined?_eq, hl']
      rfl
  -- No line before `l'` defines the name, and none before `l` does.
  obtain rfl : l = l' := by
    obtain ⟨later, hlater⟩ : ∃ later, definitionsOf source d.name = l :: later :=
      List.head?_eq_some_iff.1 h
    rw [hlater] at hdefines
    rcases List.mem_cons.1 hdefines with rfl | hmem
    · rfl
    · have hordered : (definitionsOf source d.name).Pairwise fun l l' => l.number < l'.number :=
        (numberedFrom_pairwise _ _).filter _
      rw [hlater] at hordered
      obtain ⟨hsource, hsymbol⟩ := List.mem_filter.1 hl
      rw [decide_eq_true_eq, symbolName?_eq] at hsymbol
      exact absurd hsymbol (hfirst l hsource (List.rel_of_pairwise_cons hordered hmem))
  exact ⟨b, s, before, after, d, hb, hlines, hl', Statement.home_of_symbol? hl',
    symbolsNamed_eq hs hd⟩

/-! ## What a reading tells of a name -/

/-- The lines at which remarks with a problem are made, and their texts. -/
def told (problem : Problem) (remarks : List Remark) : List (Option Int × String) :=
  (remarksAbout problem remarks).map fun e => (e.line, e.render)

theorem told_eq_nil {problem : Problem} {remarks : List Remark}
    (h : ∀ e ∈ remarks, e.problem ≠ problem) : told problem remarks = [] := by
  rw [told, List.map_eq_nil_iff, remarksAbout, List.filter_eq_nil_iff]
  exact fun e he heq => h e he (of_decide_eq_true heq)

/-- What a reading tells of a name that may be defined more than once. -/
structure Reading.TellsDuplicates (source name : String) (reading : Reading) : Prop where
  /-- Each definition but the first is an error at its line. -/
  symbols : told (.duplicateSymbol name) reading.diagnostics.errors =
    (definitionsOf source name).tail.map fun l =>
      (some (l.number : Int), s!"Duplicate Symbol {name} at line {l.number}")
  /-- The first definition makes the only symbol of the name.  It belongs to the section whose lines
  the definition stands among. -/
  owner : ∀ l ∈ (definitionsOf source name).head?, ∃ b s before after d,
    IsSectionOf source b s ∧ b.lines = before ++ l :: after ∧
      l.line.statement.symbol? s.ordinal (instructionsFrom 0 before).length = some d ∧
      d.home = s.ordinal ∧ reading.program.symbolsNamed name = [(s, d)]
  /-- Each binding but the first is an error at its line, unless it binds a device. -/
  aliases : told (.duplicateAlias name) reading.diagnostics.errors =
    ((bindingsOf source name).tail.filter fun l => !l.bindsDevice name).map fun l =>
      (some (l.number : Int), s!"Duplicate alias {name} at line {l.number}")
  /-- Each binding of a device but the first binding is a warning at its line. -/
  devices : told (.reboundDevice name) reading.diagnostics.warnings =
    ((bindingsOf source name).tail.filter fun l => l.bindsDevice name).map fun l =>
      (some (l.number : Int), s!"Duplicate direct device pin alias {name} at line {l.number}")
  /-- Neither of the errors is a warning at any line. -/
  warnings : told (.duplicateSymbol name) reading.diagnostics.warnings = [] ∧
    told (.duplicateAlias name) reading.diagnostics.warnings = []
  /-- The warning is not an error at any line. -/
  errors : told (.reboundDevice name) reading.diagnostics.errors = []

/-- Of the lines that define a name the first is taken and each of the others is reported, and of those
that bind a name each but the first is reported. -/
theorem duplicates_told (source name : String) :
    (Reading.of source).TellsDuplicates source name where
  symbols := by
    have hmade := (Reader.tallies_symbols name).made_read rfl rfl source
    rw [List.filter_true] at hmade
    rw [told, Reading.of_diagnostics, hmade, List.map_map]
    rfl
  owner := fun l hl => owner_of_first hl
  aliases := by
    have hmade := (Reader.tallies_aliases name).made_read rfl rfl source
    rw [told, Reading.of_diagnostics, hmade, List.map_map]
    rfl
  devices := by
    have hmade := (Reader.tallies_devices name).made_read rfl rfl source
    rw [told, Reading.of_diagnostics, hmade, List.map_map]
    rfl
  warnings := by
    have hwarnings := (Reading.sorted source).warnings
    constructor
    · exact told_eq_nil fun e he heq => by simpa [heq, Problem.isDoubt] using hwarnings e he
    · exact told_eq_nil fun e he heq => by simpa [heq, Problem.isDoubt] using hwarnings e he
  errors := by
    have herrors := (Reading.sorted source).errors
    exact told_eq_nil fun e he heq => by simpa [heq, Problem.isDoubt] using herrors e he

/-- A label whose name is defined again in another section, and an alias that is bound three times. -/
example : (Reading.of "x: yield\nsection a\ndefine x 1\nalias p d0\nalias p d1\nalias p r0").diagnostics =
    ⟨[⟨.reboundDevice "p", some 4⟩], [⟨.duplicateSymbol "x", some 2⟩, ⟨.duplicateAlias "p", some 5⟩]⟩ := by
  decide +kernel

end ChipAsm
