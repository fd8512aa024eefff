import ChipAsm.Proofs.History

/-!
# What a run takes from its scopes

An operand asks its scope three things: what a token stands for as an alias, what symbol a name stands
for, and why a name that the program defines is not seen.  The first two are told by the visible
sections, and they alone decide the text of the operand.  The last decides only what is reported.

So a scope may know fewer names than another with the same visible sections: it makes the same lines,
and it has nothing to report where the other has nothing to report (`assembleSections_eases`).
-/

namespace ChipAsm

open ChipAsm.Number ChipAsm.Token

/-! ## Two runs -/

/-- Two computations agree: both are stopped by the same fault, or both finish and their results are
related. -/
inductive Agree {ε α β : Type} (R : α → β → Prop) : Except ε α → Except ε β → Prop where
  | stopped {fault : ε} : Agree R (.error fault) (.error fault)
  | finished {a : α} {b : β} (h : R a b) : Agree R (.ok a) (.ok b)

namespace Agree

variable {ε α β γ δ : Type} {R : α → β → Prop} {S : γ → δ → Prop} {x : Except ε α} {y : Except ε β}

theorem bind {f : α → Except ε γ} {g : β → Except ε δ} (h : Agree R x y)
    (hfg : ∀ {a b}, R a b → Agree S (f a) (g b)) : Agree S (x.bind f) (y.bind g) := by
  cases h with
  | stopped => exact .stopped
  | finished hab => exact hfg hab

theorem map {f : α → γ} {g : β → δ} (h : Agree R x y) (hfg : ∀ {a b}, R a b → S (f a) (g b)) :
    Agree S (x.map f) (y.map g) := by
  cases h with
  | stopped => exact .stopped
  | finished hab => exact .finished (hfg hab)

/-- If the first computation finishes, so does the second. -/
theorem exists_ok {a : α} (h : Agree R x y) (hx : x = .ok a) : ∃ b, y = .ok b ∧ R a b := by
  cases h with
  | stopped => cases hx
  | finished hab =>
      cases hx
      exact ⟨_, rfl, hab⟩

end Agree

/-! ## Scopes that tell the same -/

/-- What symbol a name stands for is told by the symbols, the ordinals and the offsets of the visible
sections. -/
theorem Scope.find?_map {g : Section → Section} {visible chosen chosen' : List Section}
    {names names' : List String} (h : ∀ s : Section,
      (g s).symbols = s.symbols ∧ (g s).ordinal = s.ordinal ∧ (g s).offset = s.offset) :
    Scope.find? ⟨visible.map g, chosen', names'⟩ = Scope.find? ⟨visible, chosen, names⟩ := by
  have hoffset : Scope.offsetOf ⟨visible.map g, chosen', names'⟩ =
      Scope.offsetOf ⟨visible, chosen, names⟩ := by
    funext ordinal
    simp only [Scope.offsetOf, List.find?_map, Function.comp_def, h, Option.map_map]
  funext name
  rw [Scope.find?, Scope.find?, hoffset, List.findSome?_map]
  simp only [Function.comp_def, Section.symbol?, h]

/-- An operand depends on nothing of its scope but what tokens stand for and what is reported of names
that are not seen. -/
theorem resolveOperand_congr {options : Options} {scope scope' : Scope} {address : Int}
    {token : String} {c : Constraint} (hunalias : scope'.unalias = scope.unalias)
    (hfind : scope'.find? = scope.find?) (hhidden : scope'.hidden = scope.hidden) :
    resolveOperand options scope' address token c = resolveOperand options scope address token c := by
  have hlookup : ∀ name allowsUnknown,
      scope'.lookupProblems name allowsUnknown = scope.lookupProblems name allowsUnknown := by
    intro name allowsUnknown
    simp only [Scope.lookupProblems, Scope.missing, hfind, hhidden]
  simp only [resolveOperand, hunalias, hfind, hlookup]

/-! ## Scopes that know fewer names -/

/-- The second scope sees what the first sees, and has nothing to report of a name if the first has
nothing to report. -/
structure Scope.Eases (scope scope' : Scope) : Prop where
  unalias : scope'.unalias = scope.unalias
  find? : scope'.find? = scope.find?
  hidden : ∀ name, scope.hidden name = [] → scope'.hidden name = []

/-- The second text is the first, and no problem was found on the way to it if none was before. -/
structure Resolved.Eases (r r' : Resolved) : Prop where
  text : r'.text = r.text
  problems : r.problems = [] → r'.problems = []

/-- The second outcome is the first, except that problems may be gone. -/
structure Outcome.Eases (o o' : Outcome) : Prop where
  instruction : o'.instruction = o.instruction
  line : o'.line = o.line
  problems : o.problems = [] → o'.problems = []

theorem Scope.hidden_eq_nil_iff {scope : Scope} {name : String} :
    scope.hidden name = [] ↔ name ∉ scope.symbolNames := by
  unfold hidden
  split
  · rename_i hname
    constructor
    · intro h
      split at h <;> cases h
    · exact fun h => absurd hname h
  · rename_i hname
    exact ⟨fun _ => hname, fun _ => rfl⟩

/-- What sections are in the run does not matter, and names may be left out. -/
theorem Scope.eases_of_subset {visible chosen chosen' : List Section} {names names' : List String}
    (h : names' ⊆ names) : Scope.Eases ⟨visible, chosen, names⟩ ⟨visible, chosen', names'⟩ where
  unalias := rfl
  find? := rfl
  hidden := by
    intro name hname
    rw [Scope.hidden_eq_nil_iff] at hname ⊢
    exact fun hmem => hname (h hmem)

section Eases

variable {table : Table} {options : Options} {scope scope' : Scope} {address : Int}

theorem Scope.Eases.lookupProblems (h : scope.Eases scope') {name : String} {allowsUnknown : Bool}
    (hnone : scope.lookupProblems name allowsUnknown = []) :
    scope'.lookupProblems name allowsUnknown = [] := by
  rw [Scope.lookupProblems] at hnone ⊢
  split
  · rename_i hword
    simp only [hword, h.find?] at hnone ⊢
    split
    · rfl
    · rename_i hfind
      rw [if_neg hfind, Scope.missing, List.append_eq_nil_iff] at hnone
      rw [Scope.missing, h.hidden name hnone.1, hnone.2, List.append_nil]
  · rfl

theorem resolveOperand_eases (h : scope.Eases scope') (token : String) (c : Constraint) :
    Agree Resolved.Eases (resolveOperand options scope address token c)
      (resolveOperand options scope' address token c) := by
  simp only [resolveOperand, h.unalias, h.find?]
  generalize (if c.substitutes then scope.unalias token else token) = name
  cases Operand.classify name scope.find? c.substitutes with
  | error fault => exact .stopped
  | ok operand =>
      have hproblems : ∀ found : List Problem,
          scope.lookupProblems name c.allowsUnknown ++ found = [] →
            scope'.lookupProblems name c.allowsUnknown ++ found = [] := by
        intro found hnone
        rw [List.append_eq_nil_iff] at hnone
        rw [h.lookupProblems hnone.1, hnone.2, List.append_nil]
      simp only [Except.bind]
      split
      · generalize (if options.keepCalls then operand.text else expand operand.text) = text
        cases relativeTo address text with
        | error fault => exact .stopped
        | ok relative =>
            refine .finished ⟨rfl, ?_⟩
            simp only [List.append_assoc]
            exact hproblems _
      · exact .finished ⟨rfl, hproblems _⟩

theorem resolveOperands_eases (h : scope.Eases scope') (places : List (String × Constraint)) :
    Agree (List.Forall₂ Resolved.Eases) (resolveOperands options scope address places)
      (resolveOperands options scope' address places) := by
  induction places with
  | nil => exact .finished .nil
  | cons place places ih =>
      rw [resolveOperands, resolveOperands]
      exact (resolveOperand_eases h place.1 place.2).bind fun hfirst => ih.map (.cons hfirst)

theorem Resolved.texts_of_eases {resolved resolved' : List Resolved}
    (h : List.Forall₂ Resolved.Eases resolved resolved') :
    resolved'.map Resolved.text = resolved.map Resolved.text := by
  induction h with
  | nil => rfl
  | cons hfirst _ ih => rw [List.map_cons, List.map_cons, hfirst.text, ih]

theorem Resolved.problems_of_eases {resolved resolved' : List Resolved}
    (h : List.Forall₂ Resolved.Eases resolved resolved')
    (hnone : resolved.flatMap Resolved.problems = []) :
    resolved'.flatMap Resolved.problems = [] := by
  induction h with
  | nil => rfl
  | cons hfirst _ ih =>
      rw [List.flatMap_cons, List.append_eq_nil_iff] at hnone
      rw [List.flatMap_cons, hfirst.problems hnone.1, ih hnone.2, List.append_nil]

theorem assembleLine_eases (h : scope.Eases scope') (offset : Nat) (l : Instruction) :
    Agree Outcome.Eases (assembleLine table options scope offset l)
      (assembleLine table options scope' offset l) := by
  rw [assembleLine, assembleLine]
  split
  · exact .finished ⟨rfl, rfl, id⟩
  · split
    · exact .finished ⟨rfl, rfl, id⟩
    · refine (resolveOperands_eases h _).map fun hresolved => ⟨rfl, ?_, ?_⟩
      · rw [Resolved.texts_of_eases hresolved]
      · exact Resolved.problems_of_eases hresolved

theorem assembleLines_eases (h : scope.Eases scope') (offset : Nat) (lines : List Instruction) :
    Agree (List.Forall₂ Outcome.Eases) (assembleLines table options scope offset lines)
      (assembleLines table options scope' offset lines) := by
  induction lines with
  | nil => exact .finished .nil
  | cons l lines ih =>
      rw [assembleLines, assembleLines]
      exact (assembleLine_eases h offset l).bind fun hfirst => ih.map (.cons hfirst)

end Eases

/-- A run that knows fewer names makes the same lines of the same sections. -/
theorem assembleSections_eases {table : Table} {options : Options} {names names' : List String}
    {chosen chosen' : List Section} (h : names' ⊆ names) (rest : List Section) :
    ∀ before : List Section,
      Agree (List.Forall₂ Outcome.Eases)
        (assembleSections table options names chosen before rest)
        (assembleSections table options names' chosen' before rest) := by
  induction rest with
  | nil => exact fun _ => .finished .nil
  | cons s rest ih =>
      intro before
      have hlines : Agree (List.Forall₂ Outcome.Eases)
          (assembleLines table options ⟨before ++ [s], chosen, names⟩ s.offset s.lines)
          (assembleLines table options ⟨before ++ [s], chosen', names'⟩ s.offset s.lines) :=
        assembleLines_eases (Scope.eases_of_subset h) s.offset s.lines
      rw [assembleSections, assembleSections]
      generalize assembleLines table options ⟨before ++ [s], chosen, names⟩ s.offset s.lines = x
        at hlines
      generalize assembleLines table options ⟨before ++ [s], chosen', names'⟩ s.offset s.lines = y
        at hlines
      cases hlines with
      | stopped => exact .stopped
      | finished hfirst => exact (ih (before ++ [s])).map fun hrest => List.rel_append hfirst hrest

/-- The names of the sections to take matter only for the choice. -/
theorem assembleSections_sections {table : Table} {options : Options} {names : List String}
    {chosen : List Section} (given : List String) (rest : List Section) :
    ∀ before : List Section,
      assembleSections table { options with sections := given } names chosen before rest =
        assembleSections table options names chosen before rest := by
  have hoperands : ∀ scope address places,
      resolveOperands { options with sections := given } scope address places =
        resolveOperands options scope address places := by
    intro scope address places
    induction places with
    | nil => rfl
    | cons place places ih =>
        rw [resolveOperands, resolveOperands, ih]
        rfl
  have hlines : ∀ scope offset lines,
      assembleLines table { options with sections := given } scope offset lines =
        assembleLines table options scope offset lines := by
    intro scope offset lines
    induction lines with
    | nil => rfl
    | cons l lines ih =>
        rw [assembleLines, assembleLines, ih, assembleLine, assembleLine]
        simp only [hoperands]
        rfl
  induction rest with
  | nil => exact fun _ => rfl
  | cons s rest ih =>
      intro before
      rw [assembleSections, assembleSections]
      simp only [hlines, ih]

/-! ## Results -/

theorem choose_nil (sections : List Section) : choose sections [] = sections := by
  simp [choose, isChosen]

theorem emitted_of_eases {outcomes outcomes' : List Outcome}
    (h : List.Forall₂ Outcome.Eases outcomes outcomes') : emitted outcomes' = emitted outcomes := by
  induction h with
  | nil => rfl
  | cons hfirst _ ih =>
      rw [emitted] at ih
      rw [emitted, emitted, List.filterMap_cons, List.filterMap_cons, hfirst.line,
        hfirst.instruction, ih]
      rfl

theorem errorsOf_of_eases {outcomes outcomes' : List Outcome}
    (h : List.Forall₂ Outcome.Eases outcomes outcomes') (hnone : errorsOf outcomes = []) :
    errorsOf outcomes' = [] := by
  induction h with
  | nil => rfl
  | cons hfirst _ ih =>
      rw [errorsOf, List.flatMap_cons, List.append_eq_nil_iff, List.map_eq_nil_iff] at hnone
      rw [errorsOf, List.flatMap_cons, hfirst.problems hnone.1, List.map_nil, List.nil_append]
      exact ih hnone.2

end ChipAsm
