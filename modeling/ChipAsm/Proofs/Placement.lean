import Mathlib.Data.List.Forall2
import ChipAsm.Assembly

/-!
# Placed sections and the lines they give

The chosen sections of a run lie one behind the other from zero on, so the offset of a section is the
number of instructions before it.  A run goes through them in that order and makes one outcome for
each instruction.  So the outcome of an instruction stands at the offset of its section moved by the
position of the instruction (`outcomes_at`), and it is made in the scope of its section: the section
itself and those before it.

In a run without errors every outcome is a line of output, so this is also the index of the line
(`emitted_at`).
-/

namespace ChipAsm

open ChipAsm.Number

/-! ## Layout -/

/-- Sections one behind the other, the first of them at `next`. -/
def layoutFrom (next : Nat) : List Section → List Section
  | [] => []
  | s :: rest => { s with offset := next } :: layoutFrom (next + s.size) rest

/-- The number of instructions of sections. -/
def totalSize : List Section → Nat
  | [] => 0
  | s :: rest => s.size + totalSize rest

/-- Placing changes nothing that the choice depends on, so it may be done after choosing. -/
theorem filter_placeFrom {chosen : Section → Bool}
    (hchosen : ∀ s offset, chosen { s with offset } = chosen s) :
    ∀ (sections : List Section) (count next : Nat), sections.length ≤ count →
      (placeFrom chosen count next sections).filter chosen =
        layoutFrom next (sections.filter chosen)
  | [], count, next, _ => by
      rw [placeFrom]
      rfl
  | s :: rest, 0, next, hcount => by simp at hcount
  | s :: rest, count + 1, next, hcount => by
      rw [List.length_cons] at hcount
      rw [placeFrom]
      cases hs : chosen s with
      | true =>
          rw [if_pos rfl, List.filter_cons_of_pos (by rw [hchosen, hs]),
            List.filter_cons_of_pos hs, layoutFrom,
            filter_placeFrom hchosen rest count _ (by omega)]
      | false =>
          rw [if_neg (by simp), List.filter_cons_of_neg (by simp [hs]),
            List.filter_cons_of_neg (by simp [hs]),
            filter_placeFrom hchosen rest (count + 1) _ (by omega)]

theorem layoutFrom_getElem? :
    ∀ (sections : List Section) (next k : Nat),
      (layoutFrom next sections)[k]? =
        sections[k]?.map fun s => { s with offset := next + totalSize (sections.take k) }
  | [], _, _ => by simp [layoutFrom]
  | s :: rest, next, 0 => by simp [layoutFrom, totalSize]
  | s :: rest, next, k + 1 => by
      rw [layoutFrom, List.getElem?_cons_succ, List.getElem?_cons_succ,
        layoutFrom_getElem? rest (next + s.size) k]
      simp only [List.take_succ_cons, totalSize, Nat.add_assoc]

/-- Placing changes only offsets. -/
theorem map_layoutFrom {β : Type} {f : Section → β} (hf : ∀ s offset, f { s with offset } = f s)
    (sections : List Section) :
    ∀ next : Nat, (layoutFrom next sections).map f = sections.map f := by
  induction sections with
  | nil => exact fun _ => rfl
  | cons s rest ih =>
      intro next
      rw [layoutFrom, List.map_cons, List.map_cons, hf, ih]

section Choosing

-- The choice looks at the names of sections and at what they require, and at nothing else.
variable {g : Section → Section} (hg : ∀ s, (g s).name = s.name ∧ (g s).required = s.required)
include hg

theorem requiredBy_map (sections : List Section) (names : List String) :
    requiredBy (sections.map g) names = requiredBy sections names := by
  simp only [requiredBy, List.filter_map, List.flatMap_map, Function.comp_def, Section.key, hg]

theorem wanted_map (sections : List Section) (given : List String) :
    wanted (sections.map g) given = wanted sections given := by
  have hrounds : ∀ steps names,
      wantedIn (sections.map g) names steps = wantedIn sections names steps := by
    intro steps names
    induction steps with
    | zero => rfl
    | succ steps ih => rw [wantedIn, wantedIn, ih, requiredBy_map hg]
  rw [wanted, wanted, List.length_map, hrounds]

/-- Sections are chosen in the same way before and after a change of what they hold. -/
theorem choose_map (sections : List Section) (given : List String) :
    choose (sections.map g) given = (choose sections given).map g := by
  have hsame : isChosen given (wanted sections given) ∘ g = isChosen given (wanted sections given) := by
    funext s
    simp only [Function.comp_apply, isChosen, Section.among, Section.key, (hg s).1]
  rw [choose, choose, wanted_map hg, List.filter_map, hsame]

end Choosing

theorem totalSize_layoutFrom :
    ∀ (sections : List Section) (next : Nat), totalSize (layoutFrom next sections) = totalSize sections
  | [], _ => rfl
  | s :: rest, next => by
      rw [layoutFrom, totalSize, totalSize, totalSize_layoutFrom rest]
      rfl

theorem take_layoutFrom :
    ∀ (sections : List Section) (next k : Nat),
      (layoutFrom next sections).take k = layoutFrom next (sections.take k)
  | [], _, k => by simp [layoutFrom]
  | s :: rest, next, 0 => rfl
  | s :: rest, next, k + 1 => by
      simp only [layoutFrom, List.take_succ_cons, take_layoutFrom rest]

theorem totalSize_take_add_size_le :
    ∀ {sections : List Section} {k : Nat} {s : Section}, sections[k]? = some s →
      totalSize (sections.take k) + s.size ≤ totalSize sections
  | [], k, s, h => by cases h
  | t :: rest, 0, s, h => by
      cases h
      rw [List.take_zero, totalSize, totalSize]
      omega
  | t :: rest, k + 1, s, h => by
      have hrest := totalSize_take_add_size_le (List.getElem?_cons_succ.symm.trans h)
      rw [List.take_succ_cons, totalSize, totalSize]
      omega

theorem totalSize_eq_length :
    ∀ sections : List Section, (sections.flatMap Section.lines).length = totalSize sections
  | [] => rfl
  | s :: rest => by
      rw [List.flatMap_cons, List.length_append, totalSize_eq_length rest]
      rfl

/-- An index among the instructions of sections lies in one of the sections. -/
theorem exists_section_of_lt :
    ∀ {sections : List Section} {n : Nat}, n < totalSize sections →
      ∃ k s p, sections[k]? = some s ∧ p < s.size ∧ n = totalSize (sections.take k) + p
  | [], n, h => by cases h
  | s :: rest, n, h => by
      rw [totalSize] at h
      by_cases hfirst : n < s.size
      · exact ⟨0, s, n, rfl, hfirst, by simp [totalSize]⟩
      · have hrest : n - s.size < totalSize rest := by omega
        obtain ⟨k, t, p, ht, hp, hn⟩ := exists_section_of_lt hrest
        refine ⟨k + 1, t, p, ht, hp, ?_⟩
        rw [List.take_succ_cons, totalSize]
        omega

/-! ## Runs -/

namespace Reading

/-- The sections that a run takes, placed. -/
def chosen (reading : Reading) (given : List String) : List Section :=
  layoutFrom 0 (choose reading.program.sections given)

/-- What the instructions of the chosen section `k` see. -/
def scopeAt (reading : Reading) (given : List String) (k : Nat) : Scope :=
  ⟨(reading.chosen given).take (k + 1), reading.chosen given, reading.program.symbolNames⟩

/-- What becomes of the instructions of the chosen sections. -/
def outcomes (reading : Reading) (table : Table) (options : Options) :
    Except Stop (List Outcome) :=
  assembleSections table options reading.program.symbolNames (reading.chosen options.sections) []
    (reading.chosen options.sections)

/-- The offset of a chosen section is the number of instructions before it. -/
theorem chosen_offset {reading : Reading} {given : List String} {k : Nat} {s : Section}
    (h : (reading.chosen given)[k]? = some s) :
    s.offset = totalSize ((reading.chosen given).take k) := by
  rw [chosen, layoutFrom_getElem?, Option.map_eq_some_iff] at h
  obtain ⟨s', -, rfl⟩ := h
  rw [chosen, take_layoutFrom, totalSize_layoutFrom]
  exact Nat.zero_add _

theorem filter_place (reading : Reading) (given : List String) :
    ((reading.place (isChosen given (wanted reading.program.sections given))
        reading.program.sections.length).program.sections.filter
      (isChosen given (wanted reading.program.sections given))) = reading.chosen given :=
  filter_placeFrom (fun _ _ => rfl) _ _ _ (Nat.le_refl _)

/-- A run of a source without errors that is not stopped gives the result of its outcomes. -/
theorem assemble_result {reading : Reading} {table : Table} {advisories : List Advisory}
    {options : Options} {a : Assembly} (hvalid : reading.valid = true)
    (h : (reading.assemble table advisories options).result = .ok a) :
    ∃ outcomes, reading.outcomes table options = .ok outcomes ∧
      a = .ofOutcomes advisories reading (reading.chosen options.sections) outcomes := by
  rw [assemble, if_pos hvalid] at h
  simp only [filter_place] at h
  rw [outcomes]
  split at h
  · rename_i outcomes houtcomes
    exact ⟨outcomes, houtcomes, (Except.ok.inj h).symm⟩
  · cases h

/-- A run of a source with errors has errors. -/
theorem valid_of_assemble {reading : Reading} {table : Table} {advisories : List Advisory}
    {options : Options} {a : Assembly}
    (h : (reading.assemble table advisories options).result = .ok a) (ha : a.valid = true) :
    reading.valid = true := by
  cases hvalid : reading.valid with
  | true => rfl
  | false =>
      rw [assemble, hvalid, if_neg (by simp)] at h
      have hrefused : Assembly.refused reading = a := Except.ok.inj h
      rw [← hrefused] at ha
      simp [Assembly.valid, Assembly.refused, Diagnostics.valid, Diagnostics.fail] at ha

end Reading

/-! ## Outcomes -/

theorem bind_eq_ok {ε α β : Type} {x : Except ε α} {f : α → Except ε β} {b : β} :
    x.bind f = .ok b ↔ ∃ a, x = .ok a ∧ f a = .ok b := by
  cases x <;> simp [Except.bind]

theorem map_eq_ok {ε α β : Type} {x : Except ε α} {f : α → β} {b : β} :
    x.map f = .ok b ↔ ∃ a, x = .ok a ∧ f a = b := by
  cases x <;> simp [Except.map]

theorem bind_eq_error {ε α β : Type} {x : Except ε α} {f : α → Except ε β} {e : ε} :
    x.bind f = .error e ↔ x = .error e ∨ ∃ a, x = .ok a ∧ f a = .error e := by
  cases x <;> simp [Except.bind]

theorem map_eq_error {ε α β : Type} {x : Except ε α} {f : α → β} {e : ε} :
    x.map f = .error e ↔ x = .error e := by
  cases x <;> simp [Except.map]

theorem resolveOperands_forall₂ {options : Options} {scope : Scope} {address : Int} :
    ∀ {places : List (String × Constraint)} {resolved : List Resolved},
      resolveOperands options scope address places = .ok resolved →
        List.Forall₂ (fun place r => resolveOperand options scope address place.1 place.2 = .ok r)
          places resolved
  | [], resolved, h => by
      cases h
      exact .nil
  | (token, c) :: places, resolved, h => by
      obtain ⟨r, hfirst, h⟩ := bind_eq_ok.1 h
      obtain ⟨rest, hrest, rfl⟩ := map_eq_ok.1 h
      exact .cons hfirst (resolveOperands_forall₂ hrest)

/-- What becomes of an instruction: it has a problem and gives no line, or its operands are resolved
and give its line. -/
theorem assembleLine_eq_ok {table : Table} {options : Options} {scope : Scope} {offset : Nat}
    {l : Instruction} {o : Outcome} (h : assembleLine table options scope offset l = .ok o) :
    (∃ problem, o = ⟨l, [problem], none⟩) ∨
      ∃ signature resolved, table.lookup l.opcode = some signature ∧
        signature.arity = l.operands.length ∧
        resolveOperands options scope (l.position + offset) (l.operands.zip signature.constraints)
          = .ok resolved ∧
        o = ⟨l, resolved.flatMap Resolved.problems,
          some (renderLine options l (resolved.map Resolved.text))⟩ := by
  rw [assembleLine] at h
  split at h
  · cases h
    exact .inl ⟨_, rfl⟩
  · rename_i signature hlookup
    split at h
    · cases h
      exact .inl ⟨_, rfl⟩
    · rename_i harity
      obtain ⟨resolved, hresolved, rfl⟩ := map_eq_ok.1 h
      exact .inr ⟨signature, resolved, hlookup, not_not.1 harity, hresolved, rfl⟩

theorem assembleLine_instruction {table : Table} {options : Options} {scope : Scope} {offset : Nat}
    {l : Instruction} {o : Outcome} (h : assembleLine table options scope offset l = .ok o) :
    o.instruction = l := by
  obtain ⟨_, rfl⟩ | ⟨_, _, -, -, -, rfl⟩ := assembleLine_eq_ok h
  · rfl
  · rfl

theorem assembleLines_forall₂ {table : Table} {options : Options} {scope : Scope} {offset : Nat} :
    ∀ {lines : List Instruction} {outcomes : List Outcome},
      assembleLines table options scope offset lines = .ok outcomes →
        List.Forall₂ (fun l o => assembleLine table options scope offset l = .ok o) lines outcomes
  | [], outcomes, h => by
      cases h
      exact .nil
  | l :: lines, outcomes, h => by
      obtain ⟨o, hline, h⟩ := bind_eq_ok.1 h
      obtain ⟨rest, hrest, rfl⟩ := map_eq_ok.1 h
      exact .cons hline (assembleLines_forall₂ hrest)

theorem forall₂_getElem? {α β : Type} {R : α → β → Prop} {xs : List α} {ys : List β}
    (h : List.Forall₂ R xs ys) {p : Nat} {x : α} (hx : xs[p]? = some x) :
    ∃ y, ys[p]? = some y ∧ R x y := by
  induction h generalizing p with
  | nil => cases hx
  | cons hhead _ ih =>
      cases p with
      | zero =>
          cases hx
          exact ⟨_, rfl, hhead⟩
      | succ p => exact ih hx

theorem getElem?_of_mem_take {α : Type} {xs : List α} {x : α} {k : Nat}
    (h : x ∈ xs.take (k + 1)) : ∃ j, j ≤ k ∧ xs[j]? = some x := by
  obtain ⟨j, hj, rfl⟩ := List.mem_take_iff_getElem.1 h
  rw [Nat.lt_min] at hj
  exact ⟨j, Nat.le_of_lt_succ hj.1, List.getElem?_eq_getElem hj.2⟩

/-- The outcomes of sections are those of the first followed by those of the rest. -/
theorem assembleSections_cons {table : Table} {options : Options} {names : List String}
    {chosen before rest : List Section} {s : Section} {outcomes : List Outcome}
    (h : assembleSections table options names chosen before (s :: rest) = .ok outcomes) :
    ∃ first others,
      assembleLines table options ⟨before ++ [s], chosen, names⟩ s.offset s.lines = .ok first ∧
      assembleSections table options names chosen (before ++ [s]) rest = .ok others ∧
      outcomes = first ++ others := by
  rw [assembleSections] at h
  cases hlines : assembleLines table options ⟨before ++ [s], chosen, names⟩ s.offset s.lines with
  | error fault => simp only [hlines] at h; cases h
  | ok first =>
      simp only [hlines] at h
      obtain ⟨others, hrest, rfl⟩ := map_eq_ok.1 h
      exact ⟨first, others, rfl, hrest, rfl⟩

theorem assembleSections_instructions {table : Table} {options : Options} {names : List String}
    {chosen : List Section} :
    ∀ {rest before : List Section} {outcomes : List Outcome},
      assembleSections table options names chosen before rest = .ok outcomes →
        outcomes.map Outcome.instruction = rest.flatMap Section.lines
  | [], before, outcomes, h => by
      cases h
      rfl
  | s :: rest, before, outcomes, h => by
      obtain ⟨first, others, hfirst, hothers, rfl⟩ := assembleSections_cons h
      have hmap : ∀ {lines : List Instruction} {made : List Outcome},
          List.Forall₂ (fun l o => assembleLine table options ⟨before ++ [s], chosen, names⟩ s.offset l
            = .ok o) lines made → made.map Outcome.instruction = lines := by
        intro lines made hmade
        induction hmade with
        | nil => rfl
        | cons hline _ ih => rw [List.map_cons, ih, assembleLine_instruction hline]
      rw [List.map_append, List.flatMap_cons, hmap (assembleLines_forall₂ hfirst),
        assembleSections_instructions hothers]

/-- The outcome of an instruction, counted from the first section, and the scope it is made in. -/
theorem assembleSections_at {table : Table} {options : Options} {names : List String}
    {chosen : List Section} :
    ∀ {rest before : List Section} {outcomes : List Outcome} {k p : Nat} {s : Section}
      {l : Instruction},
      assembleSections table options names chosen before rest = .ok outcomes →
        rest[k]? = some s → s.lines[p]? = some l →
          ∃ o, outcomes[totalSize (rest.take k) + p]? = some o ∧
            assembleLine table options ⟨before ++ rest.take (k + 1), chosen, names⟩ s.offset l = .ok o
  | [], _, _, _, _, _, _, _, hs, _ => by cases hs
  | t :: rest, before, outcomes, k, p, s, l, h, hs, hl => by
      obtain ⟨first, others, hfirst, hothers, rfl⟩ := assembleSections_cons h
      have hforall := assembleLines_forall₂ hfirst
      cases k with
      | zero =>
          cases hs
          obtain ⟨o, ho, hline⟩ := forall₂_getElem? hforall hl
          refine ⟨o, ?_, by simpa using hline⟩
          have hp : p < first.length := (List.getElem?_eq_some_iff.1 ho).1
          simpa [totalSize, List.getElem?_append_left hp] using ho
      | succ k =>
          obtain ⟨o, ho, hline⟩ := assembleSections_at hothers hs hl
          refine ⟨o, ?_, by simpa using hline⟩
          have hsize : totalSize ((t :: rest).take (k + 1)) + p =
              first.length + (totalSize (rest.take k) + p) := by
            rw [List.take_succ_cons, totalSize, Section.size, hforall.length_eq, Nat.add_assoc]
          rw [hsize, List.getElem?_append_right (Nat.le_add_right ..), Nat.add_sub_cancel_left]
          exact ho

/-- The outcome of an instruction stands at the offset of its section moved by its position, and is
made in the scope of its section. -/
theorem outcomes_at {reading : Reading} {table : Table} {options : Options}
    {outcomes : List Outcome} {k p : Nat} {s : Section} {l : Instruction}
    (h : reading.outcomes table options = .ok outcomes)
    (hs : (reading.chosen options.sections)[k]? = some s) (hl : s.lines[p]? = some l) :
    ∃ o, outcomes[s.offset + p]? = some o ∧
      assembleLine table options (reading.scopeAt options.sections k) s.offset l = .ok o := by
  have hat := assembleSections_at h hs hl
  rwa [← Reading.chosen_offset hs] at hat

theorem outcomes_instructions {reading : Reading} {table : Table} {options : Options}
    {outcomes : List Outcome} (h : reading.outcomes table options = .ok outcomes) :
    outcomes.map Outcome.instruction =
      (reading.chosen options.sections).flatMap Section.lines :=
  assembleSections_instructions h

/-- Every outcome is that of an instruction of a chosen section, made in the scope of its section. -/
theorem instruction_of_outcome {reading : Reading} {table : Table} {options : Options}
    {outcomes : List Outcome} {n : Nat} {o : Outcome}
    (h : reading.outcomes table options = .ok outcomes) (ho : outcomes[n]? = some o) :
    ∃ (k p : Nat) (s : Section) (l : Instruction),
      (reading.chosen options.sections)[k]? = some s ∧ s.lines[p]? = some l ∧ n = s.offset + p ∧
      assembleLine table options (reading.scopeAt options.sections k) s.offset l = .ok o := by
  have hlength : outcomes.length = totalSize (reading.chosen options.sections) := by
    rw [← totalSize_eq_length, ← outcomes_instructions h, List.length_map]
  have hlt : n < totalSize (reading.chosen options.sections) := by
    rw [← hlength]
    exact (List.getElem?_eq_some_iff.1 ho).1
  obtain ⟨k, s, p, hs, hp, hn⟩ := exists_section_of_lt hlt
  rw [← Reading.chosen_offset hs] at hn
  have hl : s.lines[p]? = some s.lines[p] := List.getElem?_eq_getElem hp
  obtain ⟨o', ho', hline⟩ := outcomes_at h hs hl
  rw [hn, ho'] at ho
  cases ho
  exact ⟨k, p, s, _, hs, hl, hn, hline⟩

/-! ## Runs without errors -/

/-- What a run without errors makes of an instruction: its operands are resolved without a problem,
and it gives a line. -/
theorem assembleLine_of_no_problems {table : Table} {options : Options} {scope : Scope}
    {offset : Nat} {l : Instruction} {o : Outcome}
    (h : assembleLine table options scope offset l = .ok o) (hproblems : o.problems = []) :
    ∃ signature resolved, table.lookup l.opcode = some signature ∧
      signature.arity = l.operands.length ∧
      resolveOperands options scope (l.position + offset) (l.operands.zip signature.constraints)
        = .ok resolved ∧
      (∀ r ∈ resolved, r.problems = []) ∧
      o.line = some (renderLine options l (resolved.map Resolved.text)) := by
  obtain ⟨_, rfl⟩ | ⟨signature, resolved, hlookup, harity, hresolved, rfl⟩ := assembleLine_eq_ok h
  · cases hproblems
  · exact ⟨signature, resolved, hlookup, harity, hresolved, List.flatMap_eq_nil_iff.1 hproblems, rfl⟩

theorem assembleLines_isSome {table : Table} {options : Options} {scope : Scope} {offset : Nat}
    {lines : List Instruction} {outcomes : List Outcome}
    (h : List.Forall₂ (fun l o => assembleLine table options scope offset l = .ok o)
      lines outcomes) : ∀ o ∈ outcomes, o.problems = [] → o.line.isSome = true := by
  induction h with
  | nil =>
      intro o ho
      cases ho
  | cons hline _ ih =>
      intro o ho hproblems
      rcases List.mem_cons.1 ho with rfl | ho
      · obtain ⟨_, _, -, -, -, -, htext⟩ := assembleLine_of_no_problems hline hproblems
        rw [htext]
        rfl
      · exact ih o ho hproblems

/-- Every outcome without a problem has a line. -/
theorem assembleSections_isSome {table : Table} {options : Options} {names : List String}
    {chosen : List Section} :
    ∀ {rest before : List Section} {outcomes : List Outcome},
      assembleSections table options names chosen before rest = .ok outcomes →
        ∀ o ∈ outcomes, o.problems = [] → o.line.isSome = true
  | [], before, outcomes, h => by
      cases h
      intro o ho
      cases ho
  | s :: rest, before, outcomes, h => by
      obtain ⟨first, others, hfirst, hothers, rfl⟩ := assembleSections_cons h
      intro o ho
      rcases List.mem_append.1 ho with ho | ho
      · exact assembleLines_isSome (assembleLines_forall₂ hfirst) o ho
      · exact assembleSections_isSome hothers o ho

theorem no_problems_of_valid {advisories : List Advisory} {reading : Reading}
    {sections : List Section} {outcomes : List Outcome}
    (h : (Assembly.ofOutcomes advisories reading sections outcomes).valid = true) :
    ∀ o ∈ outcomes, o.problems = [] := by
  intro o ho
  simp only [Assembly.valid, Assembly.ofOutcomes, Diagnostics.valid, Diagnostics.merge,
    List.isEmpty_iff, List.append_eq_nil_iff, errorsOf, List.flatMap_eq_nil_iff,
    List.map_eq_nil_iff] at h
  exact h.2 o ho

/-- Where every outcome has a line, the outcomes and the lines of output stand at the same
indices. -/
theorem emitted_getElem? {outcomes : List Outcome} (h : ∀ o ∈ outcomes, o.line.isSome = true)
    {i : Nat} {o : Outcome} {text : String} (ho : outcomes[i]? = some o)
    (htext : o.line = some text) :
    (emitted outcomes)[i]? = some (text, o.instruction.sourceLine) := by
  induction outcomes generalizing i with
  | nil => cases ho
  | cons first rest ih =>
      obtain ⟨line, hline⟩ := Option.isSome_iff_exists.1 (h first (List.mem_cons_self ..))
      have hemitted : emitted (first :: rest) =
          (line, first.instruction.sourceLine) :: emitted rest := by
        simp [emitted, hline]
      rw [hemitted]
      cases i with
      | zero =>
          cases ho
          rw [htext] at hline
          cases hline
          rfl
      | succ i => exact ih (fun o' ho' => h o' (List.mem_cons_of_mem _ ho')) ho

/-- A run without errors resolves the operands of an instruction in the scope of its section and
without a problem, and emits its line at the offset of the section moved by its position. -/
theorem resolved_at {reading : Reading} {table : Table} {options : Options}
    {outcomes : List Outcome} {k p : Nat} {s : Section} {l : Instruction}
    (h : reading.outcomes table options = .ok outcomes)
    (hproblems : ∀ o ∈ outcomes, o.problems = [])
    (hs : (reading.chosen options.sections)[k]? = some s) (hl : s.lines[p]? = some l) :
    ∃ signature resolved, table.lookup l.opcode = some signature ∧
      signature.arity = l.operands.length ∧
      resolveOperands options (reading.scopeAt options.sections k) (l.position + s.offset)
        (l.operands.zip signature.constraints) = .ok resolved ∧
      (∀ r ∈ resolved, r.problems = []) ∧
      (emitted outcomes)[s.offset + p]? =
        some (renderLine options l (resolved.map Resolved.text), l.sourceLine) := by
  obtain ⟨o, ho, hline⟩ := outcomes_at h hs hl
  obtain ⟨signature, resolved, hlookup, harity, hresolved, hnone, htext⟩ :=
    assembleLine_of_no_problems hline (hproblems o (List.mem_of_getElem? ho))
  refine ⟨signature, resolved, hlookup, harity, hresolved, hnone, ?_⟩
  rw [← assembleLine_instruction hline] at htext ⊢
  exact emitted_getElem? (fun o ho => assembleSections_isSome h o ho (hproblems o ho)) ho htext

theorem emitted_at {reading : Reading} {table : Table} {options : Options}
    {outcomes : List Outcome} {k p : Nat} {s : Section} {l : Instruction}
    (h : reading.outcomes table options = .ok outcomes)
    (hproblems : ∀ o ∈ outcomes, o.problems = [])
    (hs : (reading.chosen options.sections)[k]? = some s) (hl : s.lines[p]? = some l) :
    ∃ signature resolved, table.lookup l.opcode = some signature ∧
      signature.arity = l.operands.length ∧
      resolveOperands options (reading.scopeAt options.sections k) (l.position + s.offset)
        (l.operands.zip signature.constraints) = .ok resolved ∧
      (emitted outcomes)[s.offset + p]? =
        some (renderLine options l (resolved.map Resolved.text), l.sourceLine) := by
  obtain ⟨signature, resolved, hlookup, harity, hresolved, -, hemitted⟩ :=
    resolved_at h hproblems hs hl
  exact ⟨signature, resolved, hlookup, harity, hresolved, hemitted⟩

/-- An index of the output is the offset of a section moved by the position of an instruction. -/
theorem instruction_of_emitted {reading : Reading} {table : Table} {options : Options}
    {outcomes : List Outcome} {n : Nat} {line : String × Nat}
    (h : reading.outcomes table options = .ok outcomes) (hline : (emitted outcomes)[n]? = some line) :
    ∃ (k p : Nat) (s : Section) (l : Instruction),
      (reading.chosen options.sections)[k]? = some s ∧ s.lines[p]? = some l ∧
      n = s.offset + p := by
  have hlt : n < outcomes.length :=
    Nat.lt_of_lt_of_le (List.getElem?_eq_some_iff.1 hline).1 (List.length_filterMap_le _ _)
  obtain ⟨k, p, s, l, hs, hl, hn, -⟩ :=
    instruction_of_outcome h (List.getElem?_eq_getElem hlt)
  exact ⟨k, p, s, l, hs, hl, hn⟩

end ChipAsm
