import ChipAsm.Proofs.OutputText

/-!
# Which instructions give a line

An instruction fits a table that has its mnemonic with its number of operands.  A run gives one line
for every instruction of its sections that fits, whatever is wrong with the operands, and these lines
stand in the order of the instructions (`forall₂_emitted`).  Any other instruction gives no line and
one error, at its own source line.  Source lines increase along a run, so the errors are ordered.

Offsets count instructions, and not lines of output.  The two agree in a run without errors, since then
every instruction fits: the line of an instruction stands at the offset of its section moved by its
position.

A run that is stopped met an operand that cannot be read or written, in an instruction that fits
(`stops_at_operand`).  `line_accounting` says that there is no other end.
-/

namespace ChipAsm

open ChipAsm.Number

/-- The table has the mnemonic of the instruction, with as many operands. -/
def Table.fits (table : Table) (l : Instruction) : Bool :=
  (table.lookup l.opcode).any fun signature => signature.arity = l.operands.length

theorem Table.fits_iff {table : Table} {l : Instruction} :
    table.fits l = true ↔
      ∃ signature, table.lookup l.opcode = some signature ∧
        signature.arity = l.operands.length := by
  simp [fits, Option.any_eq_true]

/-! ## One line for each instruction that fits -/

section Outcomes

variable {table : Table} {options : Options}

/-- An instruction that does not fit has one problem, and gives no line. -/
theorem assembleLine_of_not_fits {scope : Scope} {offset : Nat} {l : Instruction}
    (h : table.fits l = false) :
    ∃ problem, assembleLine table options scope offset l = .ok ⟨l, [problem], none⟩ ∧
      (table.lookup l.opcode = none ∧ problem = .unknownMnemonic l.opcode ∨
        ∃ signature, table.lookup l.opcode = some signature ∧
          signature.arity ≠ l.operands.length ∧
          problem = .operandCount signature.mnemonic signature.arity l.operands.length) := by
  rw [assembleLine]
  cases hlookup : table.lookup l.opcode with
  | none => exact ⟨_, rfl, .inl ⟨rfl, rfl⟩⟩
  | some signature =>
      have harity : signature.arity ≠ l.operands.length := by
        simpa [Table.fits, hlookup] using h
      exact ⟨_, if_pos harity, .inr ⟨signature, rfl, harity, rfl⟩⟩

/-- Whether an instruction gives a line is told by the table alone. -/
theorem assembleLine_line_isSome {scope : Scope} {offset : Nat} {l : Instruction} {o : Outcome}
    (h : assembleLine table options scope offset l = .ok o) :
    o.line.isSome = table.fits l := by
  cases hfits : table.fits l with
  | false =>
      obtain ⟨problem, hline, -⟩ := assembleLine_of_not_fits hfits
      cases h.symm.trans hline
      rfl
  | true =>
      obtain ⟨signature, hlookup, harity⟩ := Table.fits_iff.1 hfits
      simp only [assembleLine, hlookup, harity, ne_eq, not_true_eq_false, if_false] at h
      obtain ⟨resolved, -, rfl⟩ := map_eq_ok.1 h
      rfl

/-- The lines of output are those of the instructions that fit, in order. -/
theorem forall₂_emitted {R : Instruction → String → Prop} {outcomes : List Outcome}
    (hfits : ∀ o ∈ outcomes, o.line.isSome = table.fits o.instruction)
    (hline : ∀ o ∈ outcomes, ∀ text ∈ o.line, R o.instruction text) :
    List.Forall₂ (fun l line => R l line.1 ∧ line.2 = l.sourceLine)
      ((outcomes.map Outcome.instruction).filter table.fits) (emitted outcomes) := by
  induction outcomes with
  | nil => exact .nil
  | cons o rest ih =>
      rw [List.forall_mem_cons] at hfits hline
      have hrest := ih hfits.2 hline.2
      rw [List.map_cons, emitted, List.filterMap_cons]
      cases htext : o.line with
      | none =>
          rw [htext] at hfits
          rw [List.filter_cons_of_neg (by simp [← hfits.1])]
          exact hrest
      | some text =>
          rw [htext] at hfits
          rw [List.filter_cons_of_pos (by rw [← hfits.1]; rfl)]
          exact .cons ⟨hline.1 text htext, rfl⟩ hrest

end Outcomes

/-! ## The lines of a run -/

section Runs

variable {source : String} {table : Table} {options : Options} {outcomes : List Outcome}

/-- The instruction stands in a section of the run and fits, and the text is the line that it gives
with the operands that are resolved in the scope of that section. -/
def Reading.Gives (reading : Reading) (table : Table) (options : Options) (l : Instruction)
    (text : String) : Prop :=
  ∃ k s signature resolved, (reading.chosen options.sections)[k]? = some s ∧ l ∈ s.lines ∧
    table.lookup l.opcode = some signature ∧ signature.arity = l.operands.length ∧
    resolveOperands options (reading.scopeAt options.sections k) (l.position + s.offset)
      (l.operands.zip signature.constraints) = .ok resolved ∧
    text = renderLine options l (resolved.map Resolved.text)

/-- The lines of output of a run are those that its instructions give, if they fit. -/
theorem forall₂_lines {reading : Reading} (h : reading.outcomes table options = .ok outcomes) :
    List.Forall₂ (fun l line => reading.Gives table options l line.1 ∧ line.2 = l.sourceLine)
      (((reading.chosen options.sections).flatMap Section.lines).filter table.fits)
      (emitted outcomes) := by
  rw [← outcomes_instructions h]
  refine forall₂_emitted (R := reading.Gives table options) (fun o ho => ?_)
    fun o ho text htext => ?_
  · obtain ⟨n, hn⟩ := List.mem_iff_getElem?.1 ho
    obtain ⟨k, p, s, l, -, -, -, hline⟩ := instruction_of_outcome h hn
    rw [assembleLine_line_isSome hline, assembleLine_instruction hline]
  · obtain ⟨n, hn⟩ := List.mem_iff_getElem?.1 ho
    obtain ⟨k, p, s, l, hs, hl, -, hline⟩ := instruction_of_outcome h hn
    obtain ⟨problem, rfl⟩ | ⟨signature, resolved, hlookup, harity, hresolved, rfl⟩ :=
      assembleLine_eq_ok hline
    · cases htext
    · cases htext
      exact ⟨k, s, signature, resolved, hs, List.mem_of_getElem? hl, hlookup, harity, hresolved, rfl⟩

/-- The source lines of the lines of output are those of the instructions that fit. -/
theorem sourceLines_emitted {reading : Reading} (h : reading.outcomes table options = .ok outcomes) :
    (emitted outcomes).map Prod.snd =
      (((reading.chosen options.sections).flatMap Section.lines).filter table.fits).map
        Instruction.sourceLine := by
  rw [← List.forall₂_eq_eq_eq, List.forall₂_map_left_iff, List.forall₂_map_right_iff]
  exact (forall₂_lines h).flip.imp fun line l hline => hline.2

/-- The instruction `n` of those that fit gives the line `n` of the output. -/
theorem emits_of_fits {reading : Reading} {n : Nat} {l : Instruction} (hvalid : reading.valid = true)
    (h : reading.outcomes table options = .ok outcomes)
    (hl : (((reading.chosen options.sections).flatMap Section.lines).filter table.fits)[n]? = some l) :
    ∃ texts, reading.Emits table options n l texts ∧ texts.length = l.operands.length ∧
      ((emitted outcomes).map Prod.fst)[n]? = some (renderLine options l texts) := by
  obtain ⟨⟨text, number⟩, hemitted, ⟨k, s, signature, resolved, hs, hmem, hlookup, harity, hresolved,
    rfl⟩, rfl⟩ := forall₂_getElem? (forall₂_lines h) hl
  refine ⟨resolved.map Resolved.text, ⟨hvalid, ⟨outcomes, h, hemitted⟩, k, s, signature, resolved, hs,
    hmem, hlookup, hresolved, rfl⟩, ?_, ?_⟩
  · rw [List.length_map, ← (resolveOperands_forall₂ hresolved).length_eq, List.length_zip, ← harity,
      Signature.arity, Nat.min_self]
  · rw [List.getElem?_map, hemitted, Option.map_some]

/-- An instruction of a section of a run that fits gives a line of its result. -/
theorem emits_of_mem_chosen {advisories : List Advisory} {a : Assembly} {s : Section}
    {l : Instruction} (hvalid : (Reading.of source).valid = true)
    (hrun : ((Reading.of source).assemble table advisories options).result = .ok a)
    (hs : s ∈ (Reading.of source).chosen options.sections) (hl : l ∈ s.lines)
    (hfits : table.fits l = true) :
    ∃ n texts, (Reading.of source).Emits table options n l texts ∧
      texts.length = l.operands.length ∧ a.lines[n]? = some (renderLine options l texts) := by
  obtain ⟨outcomes, houtcomes, rfl⟩ := Reading.assemble_result hvalid hrun
  have hmem : l ∈ (((Reading.of source).chosen options.sections).flatMap Section.lines).filter
      table.fits :=
    List.mem_filter.2 ⟨List.mem_flatMap.2 ⟨s, hs, hl⟩, hfits⟩
  obtain ⟨n, hn⟩ := List.mem_iff_getElem?.1 hmem
  exact ⟨n, emits_of_fits hvalid houtcomes hn⟩

/-- The operands of a line of output are resolved one by one. -/
theorem Reading.Emits.operand {reading : Reading} {n i : Nat} {l : Instruction} {texts : List String}
    {signature : Signature} {token : String} {c : Constraint}
    (h : reading.Emits table options n l texts) (hlookup : table.lookup l.opcode = some signature)
    (htoken : l.operands[i]? = some token) (hc : signature.constraints[i]? = some c) :
    ∃ k s r, (reading.chosen options.sections)[k]? = some s ∧ l ∈ s.lines ∧
      resolveOperand options (reading.scopeAt options.sections k) (l.position + s.offset) token c =
        .ok r ∧
      texts[i]? = some r.text := by
  obtain ⟨k, s, signature', resolved, hs, hl, hlookup', hresolved, rfl⟩ := h.resolved
  cases hlookup.symm.trans hlookup'
  have hplace : (l.operands.zip signature.constraints)[i]? = some (token, c) :=
    List.getElem?_zip_eq_some.2 ⟨htoken, hc⟩
  obtain ⟨r, hr, hresolve⟩ := forall₂_getElem? (resolveOperands_forall₂ hresolved) hplace
  exact ⟨k, s, r, hs, hl, hresolve, by rw [List.getElem?_map, hr, Option.map_some]⟩

/-- An instruction stands in one section of a run. -/
theorem chosen_unique {given : List String} {l : Instruction} {k k' : Nat} {s s' : Section}
    (hs : ((Reading.of source).chosen given)[k]? = some s) (hl : l ∈ s.lines)
    (hs' : ((Reading.of source).chosen given)[k']? = some s') (hl' : l ∈ s'.lines) : k = k' := by
  have happart := (List.pairwise_flatMap.1 (chosen_sourceLines source given)).2
  have happart' : ∀ {i j : Nat} {t t' : Section}, i < j →
      ((Reading.of source).chosen given)[i]? = some t →
      ((Reading.of source).chosen given)[j]? = some t' → l ∈ t.lines → l ∉ t'.lines := by
    intro i j t t' hlt ht ht' hmem hmem'
    obtain ⟨hi, rfl⟩ := List.getElem?_eq_some_iff.1 ht
    obtain ⟨hj, rfl⟩ := List.getElem?_eq_some_iff.1 ht'
    exact Nat.lt_irrefl _ (List.pairwise_iff_getElem.1 happart i j hi hj hlt l hmem l hmem')
  rcases Nat.lt_trichotomy k k' with hlt | heq | hlt
  · exact absurd hl' (happart' hlt hs hs' hl)
  · exact heq
  · exact absurd hl (happart' hlt hs' hs hl')

/-- No two lines of output are emitted for instructions of one source line. -/
theorem Reading.Emits.index_eq {m n : Nat} {l l' : Instruction} {texts texts' : List String}
    (h : (Reading.of source).Emits table options m l texts)
    (h' : (Reading.of source).Emits table options n l' texts')
    (hline : l.sourceLine = l'.sourceLine) : m = n := by
  obtain ⟨outcomes, houtcomes, hm⟩ := h.recorded
  obtain ⟨outcomes', houtcomes', hn⟩ := h'.recorded
  cases houtcomes.symm.trans houtcomes'
  have hdistinct := chosen_sourceLines source options.sections
  rw [← outcomes_instructions houtcomes, List.pairwise_map] at hdistinct
  have hapart := List.pairwise_iff_getElem.1 (emitted_pairwise hdistinct)
  obtain ⟨hltm, heqm⟩ := List.getElem?_eq_some_iff.1 hm
  obtain ⟨hltn, heqn⟩ := List.getElem?_eq_some_iff.1 hn
  rcases Nat.lt_trichotomy m n with hlt | heq | hlt
  · have hnumbers := hapart m n hltm hltn hlt
    rw [heqm, heqn, hline] at hnumbers
    exact absurd hnumbers (Nat.lt_irrefl _)
  · exact heq
  · have hnumbers := hapart n m hltn hltm hlt
    rw [heqm, heqn, hline] at hnumbers
    exact absurd hnumbers (Nat.lt_irrefl _)

/-- In a run without errors every instruction fits. -/
theorem fits_of_no_problems {reading : Reading} (h : reading.outcomes table options = .ok outcomes)
    (hproblems : ∀ o ∈ outcomes, o.problems = []) :
    ∀ l ∈ (reading.chosen options.sections).flatMap Section.lines, table.fits l = true := by
  intro l hl
  rw [← outcomes_instructions h] at hl
  obtain ⟨o, ho, rfl⟩ := List.mem_map.1 hl
  obtain ⟨n, hn⟩ := List.mem_iff_getElem?.1 ho
  obtain ⟨k, p, s, l, -, -, -, hline⟩ := instruction_of_outcome h hn
  rw [assembleLine_instruction hline, ← assembleLine_line_isSome hline]
  exact assembleSections_isSome h o ho (hproblems o ho)

/-- An instruction of a section stands behind those of the sections before it. -/
theorem getElem?_flatMap_lines {sections : List Section} :
    ∀ {k p : Nat} {s : Section} {l : Instruction}, sections[k]? = some s → s.lines[p]? = some l →
      (sections.flatMap Section.lines)[totalSize (sections.take k) + p]? = some l := by
  induction sections with
  | nil =>
      intro k p s l hs
      cases hs
  | cons t rest ih =>
      intro k p s l hs hl
      cases k with
      | zero =>
          cases hs
          have hp : p < t.lines.length := (List.getElem?_eq_some_iff.1 hl).1
          rw [List.take_zero, totalSize, Nat.zero_add, List.flatMap_cons,
            List.getElem?_append_left hp, hl]
      | succ k =>
          rw [List.take_succ_cons, totalSize, Nat.add_assoc, List.flatMap_cons, Section.size,
            List.getElem?_append_right (Nat.le_add_right ..), Nat.add_sub_cancel_left]
          exact ih hs hl

/-- The errors of a run, in order, stand at the source lines of its instructions. -/
theorem errorsOf_lines (outcomes : List Outcome) :
    (errorsOf outcomes).map Remark.line =
      (outcomes.flatMap fun o => o.problems.map fun _ => o.instruction.sourceLine).map
        fun n : Nat => some (n : Int) := by
  rw [errorsOf, List.map_flatMap, List.map_flatMap]
  exact List.flatMap_congr fun o _ => by simp [Function.comp_def]

/-- Where source lines increase, those of the problems do not decrease. -/
theorem problem_lines_pairwise {outcomes : List Outcome}
    (h : outcomes.Pairwise fun o o' => o.instruction.sourceLine < o'.instruction.sourceLine) :
    (outcomes.flatMap fun o => o.problems.map fun _ => o.instruction.sourceLine).Pairwise
      (· ≤ ·) := by
  rw [List.pairwise_flatMap]
  constructor
  · intro o _
    rw [List.pairwise_map]
    exact List.pairwise_of_forall fun _ _ => Nat.le_refl _
  · refine h.imp ?_
    intro o o' hlt n hn n' hn'
    obtain ⟨_, -, rfl⟩ := List.mem_map.1 hn
    obtain ⟨_, -, rfl⟩ := List.mem_map.1 hn'
    exact Nat.le_of_lt hlt

end Runs

/-! ## Runs that are stopped -/

section Stops

variable {table : Table} {options : Options} {fault : NumeralFault}

theorem resolveOperands_eq_error {scope : Scope} {address : Int} {places : List (String × Constraint)}
    (h : resolveOperands options scope address places = .error fault) :
    ∃ place ∈ places, resolveOperand options scope address place.1 place.2 = .error fault := by
  induction places with
  | nil => cases h
  | cons place rest ih =>
      obtain hfirst | ⟨r, -, hmap⟩ := bind_eq_error.1 h
      · exact ⟨place, List.mem_cons_self .., hfirst⟩
      · obtain ⟨place', hplace', hfault⟩ := ih (map_eq_error.1 hmap)
        exact ⟨place', List.mem_cons_of_mem _ hplace', hfault⟩

/-- An operand of an instruction that fits cannot be read or written. -/
def Instruction.Faults (table : Table) (options : Options) (scope : Scope) (offset : Nat)
    (l : Instruction) (fault : NumeralFault) : Prop :=
  ∃ signature, table.lookup l.opcode = some signature ∧ signature.arity = l.operands.length ∧
    ∃ place ∈ l.operands.zip signature.constraints,
      resolveOperand options scope (l.position + offset) place.1 place.2 = .error fault

theorem assembleLine_eq_error {scope : Scope} {offset : Nat} {l : Instruction}
    (h : assembleLine table options scope offset l = .error fault) :
    l.Faults table options scope offset fault := by
  cases hfits : table.fits l with
  | false =>
      obtain ⟨problem, hline, -⟩ := assembleLine_of_not_fits hfits
      cases h.symm.trans hline
  | true =>
      obtain ⟨signature, hlookup, harity⟩ := Table.fits_iff.1 hfits
      simp only [assembleLine, hlookup, harity, ne_eq, not_true_eq_false, if_false] at h
      exact ⟨signature, hlookup, harity, resolveOperands_eq_error (map_eq_error.1 h)⟩

theorem assembleLines_eq_error {scope : Scope} {offset : Nat} {lines : List Instruction}
    (h : assembleLines table options scope offset lines = .error fault) :
    ∃ l ∈ lines, l.Faults table options scope offset fault := by
  induction lines with
  | nil => cases h
  | cons l rest ih =>
      obtain hfirst | ⟨o, -, hmap⟩ := bind_eq_error.1 h
      · exact ⟨l, List.mem_cons_self .., assembleLine_eq_error hfirst⟩
      · obtain ⟨l', hl', hfaults⟩ := ih (map_eq_error.1 hmap)
        exact ⟨l', List.mem_cons_of_mem _ hl', hfaults⟩

theorem assembleSections_eq_error {names : List String} {chosen : List Section} {stop : Stop} :
    ∀ {rest before : List Section},
      assembleSections table options names chosen before rest = .error stop →
        ∃ (k : Nat) (s : Section) (l : Instruction), rest[k]? = some s ∧ l ∈ s.lines ∧
          l.Faults table options ⟨before ++ rest.take (k + 1), chosen, names⟩ s.offset stop.fault
  | [], before, h => by cases h
  | s :: rest, before, h => by
      rw [assembleSections] at h
      cases hlines : assembleLines table options ⟨before ++ [s], chosen, names⟩ s.offset s.lines with
      | error fault =>
          simp only [hlines, Except.error.injEq] at h
          subst h
          obtain ⟨l, hl, hfaults⟩ := assembleLines_eq_error hlines
          exact ⟨0, s, l, rfl, hl, hfaults⟩
      | ok first =>
          simp only [hlines] at h
          obtain ⟨k, t, l, ht, hl, hfaults⟩ := assembleSections_eq_error (map_eq_error.1 h)
          refine ⟨k + 1, t, l, ht, hl, ?_⟩
          rwa [List.append_assoc, List.singleton_append, ← List.take_succ_cons] at hfaults

/-- An instruction of a section of the run has an operand that cannot be read or written. -/
def Reading.Faults (reading : Reading) (table : Table) (options : Options) (fault : NumeralFault) :
    Prop :=
  ∃ (k : Nat) (s : Section) (l : Instruction),
    (reading.chosen options.sections)[k]? = some s ∧ l ∈ s.lines ∧
    l.Faults table options (reading.scopeAt options.sections k) s.offset fault

/-- A run of a source without errors that is stopped met an operand that cannot be read or written. -/
theorem stops_at_operand {reading : Reading} {advisories : List Advisory}
    (hvalid : reading.valid = true)
    (h : (reading.assemble table advisories options).result = .error fault) :
    reading.Faults table options fault := by
  rw [Reading.assemble, if_pos hvalid] at h
  simp only [Reading.filter_place] at h
  split at h
  · cases h
  · rename_i stop hstop
    obtain ⟨k, s, l, hs, hl, hfaults⟩ := assembleSections_eq_error hstop
    rw [List.nil_append, ← Reading.scopeAt, Except.error.inj h] at hfaults
    exact ⟨k, s, l, hs, hl, hfaults⟩

end Stops

/-! ## The account of a run -/

/-- What the lines, the errors and the offsets of a result say about the instructions of its
sections. -/
structure Reading.Accounts (reading : Reading) (table : Table) (options : Options) (a : Assembly) :
    Prop where
  /-- The sections are those of the run, in the order of placing. -/
  sections : a.sections = reading.chosen options.sections
  /-- There are as many lines as instructions that fit. -/
  count : a.lines.length = ((a.sections.flatMap Section.lines).filter table.fits).length
  /-- The instruction `n` of those that fit gives the line `n`. -/
  lines : ∀ (n : Nat) (l : Instruction),
    ((a.sections.flatMap Section.lines).filter table.fits)[n]? = some l →
      ∃ texts, reading.Emits table options n l texts ∧ texts.length = l.operands.length ∧
        a.lines[n]? = some (renderLine options l texts)
  /-- An instruction whose mnemonic is not in the table gives one error. -/
  unknown : ∀ l ∈ a.sections.flatMap Section.lines, table.lookup l.opcode = none →
    a.errorsAt l.sourceLine = [.unknownMnemonic l.opcode]
  /-- An instruction with the wrong number of operands gives one error. -/
  miscounted : ∀ l ∈ a.sections.flatMap Section.lines, ∀ signature,
    table.lookup l.opcode = some signature → signature.arity ≠ l.operands.length →
      a.errorsAt l.sourceLine =
        [.operandCount signature.mnemonic signature.arity l.operands.length]
  /-- The offset of a section is the number of instructions of the sections before it. -/
  offsets : ∀ (i : Nat) (s : Section), a.sections[i]? = some s →
    s.offset = totalSize (a.sections.take i)
  /-- Every error has a source line, and these do not decrease. -/
  ordered : ∃ numbers : List Nat,
    a.diagnostics.errors.map Remark.line = numbers.map (fun n : Nat => some (n : Int)) ∧
      numbers.Pairwise (· ≤ ·)
  /-- Without errors there are as many lines as instructions, and the line of an instruction stands at
  the offset of its section moved by its position. -/
  complete : a.valid = true →
    a.lines.length = totalSize a.sections ∧
      ∀ (k p : Nat) (s : Section) (l : Instruction), a.sections[k]? = some s →
        s.lines[p]? = some l → l.position = p ∧
          ∃ texts, reading.Emits table options (s.offset + p) l texts ∧
            texts.length = l.operands.length ∧
            a.lines[s.offset + p]? = some (renderLine options l texts)

section Accounts

variable {source : String} {table : Table} {advisories : List Advisory} {options : Options}
  {a : Assembly}

/-- The one error of an instruction that does not fit. -/
theorem errorsAt_of_not_fits {l : Instruction} (hvalid : (Reading.of source).valid = true)
    (hrun : ((Reading.of source).assemble table advisories options).result = .ok a)
    (hl : l ∈ ((Reading.of source).chosen options.sections).flatMap Section.lines)
    (hfits : table.fits l = false) :
    ∃ problem, a.errorsAt l.sourceLine = [problem] ∧
      (table.lookup l.opcode = none ∧ problem = .unknownMnemonic l.opcode ∨
        ∃ signature, table.lookup l.opcode = some signature ∧
          signature.arity ≠ l.operands.length ∧
          problem = .operandCount signature.mnemonic signature.arity l.operands.length) := by
  obtain ⟨s, hs, hmem⟩ := List.mem_flatMap.1 hl
  obtain ⟨k, hk⟩ := List.mem_iff_getElem?.1 hs
  obtain ⟨o, hline, herrors⟩ := errorsAt_of_assemble hvalid hrun hk hmem
  obtain ⟨problem, hline', hproblem⟩ := assembleLine_of_not_fits hfits
  cases hline.symm.trans hline'
  exact ⟨problem, herrors, hproblem⟩

theorem accounts_of_assemble (hvalid : (Reading.of source).valid = true)
    (hrun : ((Reading.of source).assemble table advisories options).result = .ok a) :
    (Reading.of source).Accounts table options a := by
  obtain ⟨outcomes, houtcomes, ha⟩ := Reading.assemble_result hvalid hrun
  have hsections : a.sections = (Reading.of source).chosen options.sections := by rw [ha]; rfl
  have hlines : a.lines = (emitted outcomes).map Prod.fst := by rw [ha]; rfl
  have hread : (Reading.of source).diagnostics.errors = [] := List.isEmpty_iff.1 hvalid
  have herrors : a.diagnostics.errors = errorsOf outcomes := by
    rw [ha]
    simp only [Assembly.ofOutcomes, Diagnostics.merge, hread, List.nil_append]
  have hcount := (forall₂_lines houtcomes).length_eq
  have hemits := fun n l => @emits_of_fits table options outcomes _ n l hvalid houtcomes
  constructor
  case sections => exact hsections
  case count => rw [hlines, hsections, List.length_map, hcount]
  case lines =>
    rw [hlines, hsections]
    exact hemits
  case unknown =>
    intro l hl hlookup
    rw [hsections] at hl
    obtain ⟨problem, herror, ⟨-, rfl⟩ | ⟨signature, hsignature, -⟩⟩ :=
      errorsAt_of_not_fits hvalid hrun hl (by simp [Table.fits, hlookup])
    · exact herror
    · cases hlookup.symm.trans hsignature
  case miscounted =>
    intro l hl signature hlookup harity
    rw [hsections] at hl
    obtain ⟨problem, herror, ⟨hnone, -⟩ | ⟨signature', hsignature, -, rfl⟩⟩ :=
      errorsAt_of_not_fits hvalid hrun hl (by simp [Table.fits, hlookup, harity])
    · cases hlookup.symm.trans hnone
    · cases hlookup.symm.trans hsignature
      exact herror
  case offsets =>
    rw [hsections]
    exact fun i s hs => Reading.chosen_offset hs
  case ordered =>
    have hdistinct := chosen_sourceLines source options.sections
    rw [← outcomes_instructions houtcomes, List.pairwise_map] at hdistinct
    rw [herrors]
    exact ⟨_, errorsOf_lines outcomes, problem_lines_pairwise hdistinct⟩
  case complete =>
    intro hclean
    have hproblems := no_problems_of_valid (ha ▸ hclean)
    have hall := List.filter_eq_self.2 (fits_of_no_problems houtcomes hproblems)
    rw [hall] at hcount
    constructor
    · rw [hlines, hsections, List.length_map, ← hcount, totalSize_eq_length]
    · intro k p s l hs hl
      rw [hsections] at hs
      refine ⟨position_of_chosen hvalid hs hl, ?_⟩
      rw [hlines]
      refine hemits _ _ ?_
      rw [hall, Reading.chosen_offset hs]
      exact getElem?_flatMap_lines hs hl

/-- A run of a source without errors accounts for every instruction of its sections, or is stopped by
an operand that cannot be read or written. -/
theorem line_accounting (table : Table) (advisories : List Advisory) (options : Options)
    (hvalid : (Reading.of source).valid = true) :
    (∃ a, ((Reading.of source).assemble table advisories options).result = .ok a ∧
      (Reading.of source).Accounts table options a) ∨
    ∃ fault, ((Reading.of source).assemble table advisories options).result = .error fault ∧
      (Reading.of source).Faults table options fault := by
  cases hrun : ((Reading.of source).assemble table advisories options).result with
  | ok a => exact .inl ⟨a, rfl, accounts_of_assemble hvalid hrun⟩
  | error fault => exact .inr ⟨fault, rfl, stops_at_operand hvalid hrun⟩

end Accounts

/-- An instruction that is not in the table, one with an operand of the wrong kind, and one with the
wrong number of operands in the second section. -/
def threeFaults : String := "frob r0\nmove r0 d0\nsection rest\nmove r1\nyield"

/-- The first and the third give no line, and the second does. -/
theorem line_accounting_threeFaults :
    (Reading.of threeFaults).valid = true ∧
    ∃ a, ((Reading.of threeFaults).assemble .standard [] {}).result = .ok a ∧
      a.lines = ["move r0 d0", "yield"] ∧
      a.errorsAt 0 = [.unknownMnemonic "frob"] ∧ a.errorsAt 1 = [.operandKind] ∧
      a.errorsAt 3 = [.operandCount "move" 2 1] ∧
      (Reading.of threeFaults).Accounts .standard {} a := by
  have hvalid : (Reading.of threeFaults).valid = true := by decide +kernel
  have hresult : ((Reading.of threeFaults).assemble .standard [] {}).result.map
      (fun a => (a.lines, a.errorsAt 0, a.errorsAt 1, a.errorsAt 3)) =
        .ok (["move r0 d0", "yield"], [.unknownMnemonic "frob"], [.operandKind],
          [.operandCount "move" 2 1]) := by
    decide +kernel
  obtain ⟨a, hrun, ha⟩ := map_eq_ok.1 hresult
  simp only [Prod.mk.injEq] at ha
  obtain ⟨a', hrun', haccounts⟩ | ⟨fault, hstopped, -⟩ :=
    line_accounting .standard [] {} hvalid
  · cases hrun.symm.trans hrun'
    exact ⟨hvalid, a, hrun, ha.1, ha.2.1, ha.2.2.1, ha.2.2.2, haccounts⟩
  · cases hrun.symm.trans hstopped

end ChipAsm
