import ChipAsm.InstructionSet
import ChipAsm.Proofs.Placement
import ChipAsm.Proofs.Reading
import ChipAsm.Proofs.Service

/-!
# Runs one after another

A reading may be assembled many times, each time with other options.  A run leaves the offsets of the
sections it placed behind in the reading, and the sections it left out, or did not come to, keep the
offsets of an earlier run.  So the reading that the next run starts from is not the one that was read.

No run ever reads such an offset.  All that a run is told by the reading is told by the reading
without offsets (`assemble_unplaced`), and a run changes nothing but offsets
(`reading_assemble_unplaced`).  So the answers in a history of requests are those that each request
gets by itself, from its source (`answers_eq_fresh`).

`Reading.assemble` places all chosen sections before it looks at an instruction.  It could as well
place each section when its turn comes, while the sections behind it still lie where they lay: an
instruction asks of those only which names they define (`assembleInTurn_eq`).
-/

namespace ChipAsm

open ChipAsm.Number

/-! ## Without offsets -/

/-- The section before it is placed. -/
def Section.unplaced (s : Section) : Section := { s with offset := 0 }

/-- What was read, without the offsets that runs have left in it. -/
def Reading.unplaced (reading : Reading) : Reading :=
  { reading with
    program :=
      { reading.program with sections := reading.program.sections.map Section.unplaced } }

theorem sectionsBehind_unplaced (bs : List Body) :
    ∀ {taken : List String} {s : Section}, s ∈ sectionsBehind taken bs → s.unplaced = s := by
  induction bs with
  | nil =>
      intro taken s hs
      cases hs
  | cons b bs ih =>
      intro taken s hs
      rw [sectionsBehind] at hs
      rcases List.mem_cons.1 hs with rfl | hs
      · rfl
      · exact ih hs

/-- Nothing is placed by reading. -/
theorem Reading.of_unplaced (source : String) :
    (Reading.of source).unplaced = Reading.of source := by
  have hsections : (Reading.of source).program.sections.map Section.unplaced =
      (Reading.of source).program.sections := by
    rw [sections_eq]
    refine (List.map_congr_left fun s hs => ?_).trans (List.map_id _)
    exact sectionsBehind_unplaced _ (List.mem_of_mem_filter hs)
  rw [Reading.unplaced, hsections]

theorem placeFrom_unplaced (chosen : Section → Bool) :
    ∀ (sections : List Section) (count next : Nat),
      (placeFrom chosen count next sections).map Section.unplaced =
        sections.map Section.unplaced
  | [], _, _ => by rw [placeFrom]
  | s :: rest, 0, next => by rw [placeFrom]; simp
  | s :: rest, count + 1, next => by
      rw [placeFrom]
      split
      · rw [List.map_cons, List.map_cons, placeFrom_unplaced chosen rest]
        rfl
      · rw [List.map_cons, List.map_cons, placeFrom_unplaced chosen rest]

theorem layoutFrom_map_unplaced (sections : List Section) :
    ∀ next : Nat, layoutFrom next (sections.map Section.unplaced) = layoutFrom next sections := by
  induction sections with
  | nil => exact fun _ => rfl
  | cons s rest ih =>
      intro next
      rw [List.map_cons, layoutFrom, layoutFrom, ih]
      rfl

namespace Reading

theorem chosen_unplaced (reading : Reading) (given : List String) :
    reading.unplaced.chosen given = reading.chosen given := by
  rw [chosen, chosen, unplaced, choose_map (g := Section.unplaced) fun _ => ⟨rfl, rfl⟩,
    layoutFrom_map_unplaced]

theorem outcomes_unplaced (reading : Reading) (table : Table) (options : Options) :
    reading.unplaced.outcomes table options = reading.outcomes table options := by
  rw [outcomes, outcomes, chosen_unplaced]
  rfl

/-! ## One run -/

/-- The result of a run is told by the outcomes. -/
theorem assemble_result_eq (reading : Reading) (table : Table) (advisories : List Advisory)
    (options : Options) :
    (reading.assemble table advisories options).result =
      if reading.valid then
        match reading.outcomes table options with
        | .ok outcomes =>
          .ok (.ofOutcomes advisories reading (reading.chosen options.sections) outcomes)
        | .error stop => .error stop.fault
      else .ok (.refused reading) := by
  rw [assemble]
  simp only [filter_place]
  split
  · rw [outcomes]
    cases assembleSections table options reading.program.symbolNames
      (reading.chosen options.sections) [] (reading.chosen options.sections) <;> rfl
  · rfl

/-- The result of a run does not depend on the offsets that earlier runs have left. -/
theorem assemble_unplaced (reading : Reading) (table : Table) (advisories : List Advisory)
    (options : Options) :
    (reading.unplaced.assemble table advisories options).result =
      (reading.assemble table advisories options).result := by
  rw [assemble_result_eq, assemble_result_eq, outcomes_unplaced, chosen_unplaced]
  rfl

/-- A run changes nothing in the reading but offsets, whether it is finished, stopped or refused. -/
theorem reading_assemble_unplaced (reading : Reading) (table : Table)
    (advisories : List Advisory) (options : Options) :
    (reading.assemble table advisories options).reading.unplaced = reading.unplaced := by
  have hplace : ∀ (isChosen : Section → Bool) (count : Nat),
      (reading.place isChosen count).unplaced = reading.unplaced := by
    intro isChosen count
    simp only [unplaced, place, Program.place, placeFrom_unplaced]
  rw [assemble]
  split
  · dsimp only
    split
    · exact hplace _ _
    · exact hplace _ _
  · rfl

end Reading

/-! ## Placing in turn -/

/-- What becomes of the instructions of the sections behind `before`, when each section is placed only
when its turn comes, the first at `next`.  Until then it lies where an earlier run has left it. -/
def assembleInTurn (table : Table) (options : Options) (symbolNames : List String)
    (before : List Section) (next : Nat) : List Section → Except Stop (List Outcome)
  | [] => .ok []
  | s :: rest =>
    let visible := before ++ [{ s with offset := next }]
    match assembleLines table options ⟨visible, visible ++ rest, symbolNames⟩ next s.lines with
    | .error fault => .error ⟨fault, visible.length⟩
    | .ok outcomes =>
      (assembleInTurn table options symbolNames visible (next + s.size) rest).map (outcomes ++ ·)

/-- What becomes of the instructions of the chosen sections, when each section is placed only when
its turn comes. -/
def Reading.outcomesInTurn (reading : Reading) (table : Table) (options : Options) :
    Except Stop (List Outcome) :=
  assembleInTurn table options reading.program.symbolNames [] 0
    (choose reading.program.sections options.sections)

/-- The scope, where the sections of the run have not been placed. -/
def Scope.unplaced (scope : Scope) : Scope :=
  { scope with chosen := scope.chosen.map Section.unplaced }

section InTurn

variable {table : Table} {options : Options} {symbolNames : List String}

/-- Of the sections of a run, an operand asks only which names they define. -/
theorem resolveOperand_unplaced (scope : Scope) (address : Int) (token : String) (c : Constraint) :
    resolveOperand options scope.unplaced address token c =
      resolveOperand options scope address token c := by
  have hdefines : ∀ name, (scope.chosen.map Section.unplaced).any (·.defines name) =
      scope.chosen.any (·.defines name) := by
    intro name
    rw [List.any_map]
    rfl
  have hlookup : ∀ name allowsUnknown,
      scope.unplaced.lookupProblems name allowsUnknown =
        scope.lookupProblems name allowsUnknown := by
    intro name allowsUnknown
    simp only [Scope.lookupProblems, Scope.missing, Scope.hidden, Scope.unplaced, hdefines]
    rfl
  simp only [resolveOperand, hlookup]
  rfl

theorem resolveOperands_unplaced (scope : Scope) (address : Int)
    (places : List (String × Constraint)) :
    resolveOperands options scope.unplaced address places =
      resolveOperands options scope address places := by
  induction places with
  | nil => rfl
  | cons place rest ih => simp only [resolveOperands, resolveOperand_unplaced, ih]

theorem assembleLines_unplaced (scope : Scope) (offset : Nat) (lines : List Instruction) :
    assembleLines table options scope.unplaced offset lines =
      assembleLines table options scope offset lines := by
  induction lines with
  | nil => rfl
  | cons l rest ih => simp only [assembleLines, assembleLine, resolveOperands_unplaced, ih]

theorem assembleLines_congr {visible chosen chosen' : List Section} {offset : Nat}
    {lines : List Instruction}
    (h : chosen.map Section.unplaced = chosen'.map Section.unplaced) :
    assembleLines table options ⟨visible, chosen, symbolNames⟩ offset lines =
      assembleLines table options ⟨visible, chosen', symbolNames⟩ offset lines := by
  have hscope : Scope.unplaced ⟨visible, chosen, symbolNames⟩ =
      Scope.unplaced ⟨visible, chosen', symbolNames⟩ := by
    simp only [Scope.unplaced, h]
  rw [← assembleLines_unplaced, hscope, assembleLines_unplaced]

/-- Placing each section when its turn comes makes the same outcomes as placing all of them first. -/
theorem assembleInTurn_eq (rest : List Section) :
    ∀ (before : List Section) (next : Nat),
      assembleInTurn table options symbolNames before next rest =
        assembleSections table options symbolNames (before ++ layoutFrom next rest) before
          (layoutFrom next rest) := by
  induction rest with
  | nil => exact fun _ _ => rfl
  | cons s rest ih =>
      intro before next
      have hchosen : ((before ++ [{ s with offset := next }]) ++ rest).map Section.unplaced =
          (before ++ layoutFrom next (s :: rest)).map Section.unplaced := by
        have hrest := map_layoutFrom (f := Section.unplaced) (fun _ _ => rfl) rest (next + s.size)
        simp only [layoutFrom, List.map_append, List.map_cons, hrest, List.append_assoc,
          List.cons_append, List.nil_append]
      have hbehind : before ++ layoutFrom next (s :: rest) =
          (before ++ [{ s with offset := next }]) ++ layoutFrom (next + s.size) rest := by
        rw [layoutFrom, List.append_assoc, List.cons_append, List.nil_append]
      rw [assembleInTurn, assembleLines_congr hchosen, ih, ← hbehind]
      conv_rhs => rw [layoutFrom, assembleSections]
      rfl

end InTurn

theorem Reading.outcomesInTurn_eq (reading : Reading) (table : Table) (options : Options) :
    reading.outcomesInTurn table options = reading.outcomes table options := by
  rw [outcomesInTurn, assembleInTurn_eq, List.nil_append]
  rfl

/-! ## Histories -/

/-- What may be asked for: a source is read, or one of the readings made so far is assembled. -/
inductive Request where
  /-- Read a source. -/
  | read (source : String)
  /-- Assemble the reading that was made at a place among all readings. -/
  | run (place : Nat) (options : Options)
deriving Repr, DecidableEq

/-- The answer to a request: the result of a run, or why there is none.  Reading a source, and asking
for a reading that was not made, is not answered. -/
abbrev Answer := Option (Except NumeralFault Assembly)

namespace Request

/-- Answers a request from the readings made so far.  A run leaves its offsets in the reading. -/
def answer (table : Table) (advisories : List Advisory) (readings : List Reading) :
    Request → List Reading × Answer
  | .read source => (readings ++ [Reading.of source], none)
  | .run place options =>
    match readings[place]? with
    | none => (readings, none)
    | some reading =>
      let run := reading.assemble table advisories options
      (readings.set place run.reading, some run.result)

/-- Answers a request from the sources alone: every run reads its source again. -/
def answerFresh (table : Table) (advisories : List Advisory) (sources : List String) :
    Request → List String × Answer
  | .read source => (sources ++ [source], none)
  | .run place options =>
    (sources, sources[place]?.map fun source =>
      ((Reading.of source).assemble table advisories options).result)

end Request

/-- The readings are those of the sources but for offsets. -/
def ReadFrom (readings : List Reading) (sources : List String) : Prop :=
  List.Forall₂ (fun reading source => reading.unplaced = Reading.of source) readings sources

theorem ReadFrom.getElem? {readings : List Reading} {sources : List String}
    (h : ReadFrom readings sources) (place : Nat) :
    readings[place]?.map Reading.unplaced = sources[place]?.map Reading.of := by
  have hmap : readings.map Reading.unplaced = sources.map Reading.of :=
    List.forall₂_eq_eq_eq ▸ List.forall₂_map_left_iff.2 (List.forall₂_map_right_iff.2 h)
  rw [← List.getElem?_map, hmap, List.getElem?_map]

theorem ReadFrom.set {readings : List Reading} {sources : List String} {place : Nat}
    {reading reading' : Reading} (h : ReadFrom readings sources)
    (hreading : readings[place]? = some reading) (hsame : reading'.unplaced = reading.unplaced) :
    ReadFrom (readings.set place reading') sources := by
  induction h generalizing place with
  | nil => exact .nil
  | @cons first source readings sources hfirst hrest ih =>
      cases place with
      | zero =>
          cases hreading
          exact .cons (hsame.trans hfirst) hrest
      | succ place => exact .cons hfirst (ih hreading)

/-- A request gets the same answer from the readings as from the sources. -/
theorem answer_simulates (table : Table) (advisories : List Advisory) :
    Simulates ReadFrom (Request.answer table advisories) (Request.answerFresh table advisories) := by
  intro readings sources h request
  cases request with
  | read source =>
      exact ⟨rfl, List.rel_append h (.cons (Reading.of_unplaced source) .nil)⟩
  | run place options =>
      have hplace := h.getElem? place
      cases hreading : readings[place]? with
      | none =>
          rw [hreading, Option.map_none, eq_comm, Option.map_eq_none_iff] at hplace
          simp only [Request.answer, Request.answerFresh, hreading, hplace]
          exact ⟨rfl, h⟩
      | some reading =>
          rw [hreading, Option.map_some, eq_comm, Option.map_eq_some_iff] at hplace
          obtain ⟨source, hsource, hof⟩ := hplace
          simp only [Request.answer, Request.answerFresh, hreading, hsource, Option.map_some, hof,
            Reading.assemble_unplaced, true_and]
          exact h.set hreading (reading.reading_assemble_unplaced table advisories options)

/-- In every history of requests, each run gets the answer that it would get from its source alone,
whatever runs came before it.  The readings that the history leaves are those of the sources but for
offsets, and even a run that places each section only when its turn comes makes the same of them. -/
theorem answers_eq_fresh (table : Table) (advisories : List Advisory) (history : List Request) :
    (serve (Request.answer table advisories) [] history).2 =
        (serve (Request.answerFresh table advisories) [] history).2 ∧
      List.Forall₂
        (fun reading source => reading.unplaced = Reading.of source ∧
          ∀ options, reading.outcomesInTurn table options = (Reading.of source).outcomes table options)
        (serve (Request.answer table advisories) [] history).1
        (serve (Request.answerFresh table advisories) [] history).1 := by
  obtain ⟨hanswers, hreadings⟩ := (answer_simulates table advisories).serve history .nil
  refine ⟨hanswers, hreadings.imp ?_⟩
  intro reading source hsame
  refine ⟨hsame, fun options => ?_⟩
  rw [Reading.outcomesInTurn_eq, ← hsame, Reading.outcomes_unplaced]

/-- Offsets are left behind: the second section keeps the offset of the first run, although the
second run leaves it out. -/
example :
    (serve (Request.answer .standard []) []
      [.read "yield\nsection rest\nyield", .run 0 {}, .run 0 { sections := ["(default)"] }]).1.map
        (fun reading => reading.program.sections.map Section.offset) = [[0, 1]] := by
  decide +kernel

end ChipAsm
