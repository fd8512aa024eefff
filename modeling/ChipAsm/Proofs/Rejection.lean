import ChipAsm.Proofs.Directive
import ChipAsm.Proofs.Remarks

/-!
# Lines that leave no trace

A reader passes over a line that it cannot use.  Such a line is not of the grammar, or is a directive with
the wrong number of operands or a section without a name, or defines a constant whose name is taken.
`Reader.take_of_rejected` says that it adds its error and nothing else.

What is remarked of one line does not matter to the next.  So the reader of a source and that of the same
source with these lines emptied stand in front of every line alike, but for those errors
(`Reader.before_emptyRejected`, by induction on the lines).  In the end they have read the same
(`rejected_lines_traceless`).

A label whose name is taken is another case: it is not defined again, but the instruction behind it is
kept.
-/

namespace ChipAsm

open ChipAsm.Text ChipAsm.Token

/-! ## Rejected lines -/

/-- A line with the problem is passed over.  Of the lines that define a symbol again, only a definition
is. -/
def Problem.rejects (definition : Bool) : Problem → Bool
  | .unrecognized => true
  | .defineCount => true
  | .aliasCount => true
  | .sectionName => true
  | .duplicateSymbol _ => definition
  | _ => false

/-- The text is a directive that defines a constant. -/
def isDefinition (text : List Char) : Bool :=
  (Line.ofText? text).any fun line => line.head = .directive "define"

/-- The remark makes the reader pass over the line of the source that it is made of. -/
def isRejection (source : String) (e : Remark) : Bool :=
  e.problem.rejects (e.line.any fun n => (linesOf source)[n.toNat]?.any isDefinition)

/-- An error is recorded at the line `n` of the source that makes the reader pass over it. -/
def isRejected (source : String) (n : Nat) : Bool :=
  (Reading.of source).diagnostics.errors.any fun e => e.line = some (n : Int) && isRejection source e

/-- The lines of a source, those that are rejected emptied. -/
def linesKept (source : String) : List (List Char) :=
  (linesOf source).mapIdx fun n text => if isRejected source n then [] else text

/-- The source where the rejected lines are emptied. -/
def emptyRejected (source : String) : String := joinLines ((linesKept source).map String.ofList)

theorem linesKept_getElem? {source : String} {n : Nat} {text : List Char}
    (h : (linesOf source)[n]? = some text) :
    (linesKept source)[n]? = some (if isRejected source n then [] else text) := by
  rw [linesKept, List.getElem?_mapIdx, h]
  rfl

theorem linesOf_emptyRejected (source : String) :
    linesOf (emptyRejected source) = linesKept source := by
  rw [emptyRejected, linesOf_joinLines]
  · simp [Function.comp_def]
  · rw [Ne, List.map_eq_nil_iff, linesKept, List.mapIdx_eq_nil_iff]
    exact splitAtSep_ne_nil '\n' source.toList
  · intro line hline
    obtain ⟨text, htext, rfl⟩ := List.mem_map.1 hline
    rw [String.toList_ofList]
    obtain ⟨n, hn, rfl⟩ := List.mem_mapIdx.1 htext
    split
    · exact List.not_mem_nil
    · exact not_mem_of_mem_splitAtSep (List.getElem_mem hn)

namespace Reader

/-! ## A line that is passed over -/

/-- A line that is passed over adds its error and nothing else. -/
theorem take_of_rejected {r : Reader} {line : Line} {problem : Problem}
    (h : r.fault? line = some problem)
    (hrejects : problem.rejects (line.head = .directive "define") = true) :
    r.take line = r.fail problem := by
  cases wrong_of_fault? h with
  | @defineCount operands comment count =>
      rcases operands with _ | ⟨name, _ | ⟨value, _ | ⟨_, _⟩⟩⟩
      · rfl
      · rfl
      · exact absurd rfl count
      · rfl
  | @aliasCount operands comment count =>
      rcases operands with _ | ⟨name, _ | ⟨target, _ | ⟨_, _⟩⟩⟩
      · rfl
      · rfl
      · exact absurd rfl count
      · rfl
  | sectionName => rfl
  | requirements found =>
      obtain rfl | rfl | ⟨name, rfl⟩ := requirements_problem found
      all_goals cases hrejects
  | constant known => exact if_pos known
  | binding known other => cases hrejects
  | label known => cases hrejects

theorem step_of_rejected {r : Reader} {text : List Char} {problem : Problem}
    (h : r.textFault? text = some problem) (hrejects : problem.rejects (isDefinition text) = true) :
    r.step text = (r.fail problem).step [] := by
  cases hline : Line.ofText? text with
  | none =>
      have hremarks : r.diagnostics.merge (r.textRemarks text) = (r.fail problem).diagnostics := by
        rw [textRemarks, h, hline]
        simp [here, Diagnostics.merge, fail, Diagnostics.fail]
      rw [step_of_no_line hline, hremarks]
      rfl
  | some line =>
      rw [textFault?_of_some hline] at h
      rw [isDefinition, hline] at hrejects
      rw [step_of_some hline, take_of_rejected h hrejects]
      rfl

/-! ## Two readers -/

/-- The reader without the errors that pass the test. -/
def without (test : Remark → Bool) (r : Reader) : Reader :=
  r.noting ⟨r.diagnostics.warnings, r.diagnostics.errors.filter fun e => !test e⟩

section Without

variable {test : Remark → Bool} {r : Reader} {text : List Char}

/-- A line whose error fails the test is read alike. -/
theorem step_without (h : ∀ problem, r.textFault? text = some problem →
    test ⟨problem, some (r.line : Int)⟩ = false) :
    (r.without test).step text = (r.step text).without test := by
  have hkept : (r.here (r.textFault? text).toList).filter (fun e => !test e) =
      r.here (r.textFault? text).toList := by
    rw [List.filter_eq_self]
    intro e he
    obtain ⟨problem, hproblem, rfl⟩ := List.mem_map.1 he
    rw [h problem (Option.mem_toList.1 hproblem)]
    rfl
  rw [without, step_noting, without, step_diagnostics, Diagnostics.merge, Diagnostics.merge,
    List.filter_append, textRemarks, hkept]

/-- A rejected line whose error passes the test is read like an empty one. -/
theorem step_without_of_rejected {problem : Problem} (h : r.textFault? text = some problem)
    (hrejects : problem.rejects (isDefinition text) = true)
    (htest : test ⟨problem, some (r.line : Int)⟩ = true) :
    (r.without test).step [] = (r.step text).without test := by
  have hdropped : (r.fail problem).without test = r.without test := by
    rw [without, without]
    simp only [fail, Diagnostics.fail, List.filter_append, List.filter_cons, htest]
    simp [noting]
  have hblank : ∀ r : Reader, (r.without test).step [] = (r.step []).without test := fun r => rfl
  rw [step_of_rejected h hrejects, ← hblank, hdropped]

end Without

/-! ## Errors by line -/

/-- The errors up to a line are what is wrong with the lines in front of it. -/
theorem mem_before_errors_iff {source : String} {k : Nat} (hk : k ≤ (linesOf source).length)
    (e : Remark) :
    e ∈ (before source k).diagnostics.errors ↔ ∃ n < k, ∃ text, (linesOf source)[n]? = some text ∧
      (before source n).textFault? text = some e.problem ∧ e.line = some (n : Int) := by
  induction k with
  | zero => simp [before]
  | succ k ih =>
      have htext := List.getElem?_eq_getElem hk
      rw [before_step htext, step_fault, errorsWith, List.mem_append, ih (Nat.le_of_succ_le hk),
        before_line htext]
      constructor
      · rintro (⟨n, hn, hfault⟩ | he)
        · exact ⟨n, Nat.lt_succ_of_lt hn, hfault⟩
        · obtain ⟨problem, hproblem, rfl⟩ := List.mem_map.1 he
          exact ⟨k, Nat.lt_succ_self k, _, htext, Option.mem_toList.1 hproblem, rfl⟩
      · rintro ⟨n, hn, text, hn', hfault, hline⟩
        rcases Nat.lt_succ_iff_lt_or_eq.1 hn with hlt | rfl
        · exact .inl ⟨n, hlt, text, hn', hfault, hline⟩
        · obtain rfl : _ = text := Option.some.inj (htext.symm.trans hn')
          obtain ⟨problem, line⟩ := e
          refine .inr (List.mem_map.2 ⟨problem, Option.mem_toList.2 hfault, ?_⟩)
          rw [← hline]

theorem before_length (source : String) :
    before source (linesOf source).length = (linesOf source).foldl step {} := by
  rw [before, List.take_length]

end Reader

section Lines

variable {source : String} {n : Nat} {text : List Char}

theorem isRejection_at (h : (linesOf source)[n]? = some text) (problem : Problem) :
    isRejection source ⟨problem, some (n : Int)⟩ = problem.rejects (isDefinition text) := by
  simp [isRejection, h]

/-- A line is rejected if and only if what is wrong with it makes the reader pass over it. -/
theorem isRejected_iff (h : (linesOf source)[n]? = some text) :
    isRejected source n = true ↔ ∃ problem,
      (Reader.before source n).textFault? text = some problem ∧
        problem.rejects (isDefinition text) = true := by
  have hmem := Reader.mem_before_errors_iff (le_refl (linesOf source).length)
  rw [isRejected, List.any_eq_true, Reading.of_diagnostics, ← Reader.before_length]
  constructor
  · rintro ⟨⟨problem, line⟩, he, htest⟩
    simp only [Bool.and_eq_true, decide_eq_true_eq] at htest
    obtain ⟨rfl, hrejects⟩ := htest
    rw [isRejection_at h] at hrejects
    obtain ⟨m, -, text', htext', hfault, hline⟩ := (hmem _).1 he
    obtain rfl : n = m := Int.ofNat.inj (Option.some.inj hline)
    obtain rfl : text = text' := Option.some.inj (h.symm.trans htext')
    exact ⟨problem, hfault, hrejects⟩
  · rintro ⟨problem, hfault, hrejects⟩
    refine ⟨⟨problem, some (n : Int)⟩, ?_, ?_⟩
    · exact (hmem _).2 ⟨n, (List.getElem?_eq_some_iff.1 h).1, text, h, hfault, rfl⟩
    · simp [isRejection_at h, hrejects]

end Lines

/-- In front of every line the readers of the two sources stand alike, but for the errors of the lines
that are rejected. -/
theorem Reader.before_emptyRejected {source : String} {k : Nat} (hk : k ≤ (linesOf source).length) :
    before (emptyRejected source) k = (before source k).without (isRejection source) := by
  induction k with
  | zero => rfl
  | succ k ih =>
      have htext := List.getElem?_eq_getElem hk
      have hkept := linesKept_getElem? htext
      rw [← linesOf_emptyRejected] at hkept
      rw [before_step hkept, before_step htext, ih (Nat.le_of_succ_le hk)]
      split
      case isTrue hrejected =>
        obtain ⟨problem, hfault, hrejects⟩ := (isRejected_iff htext).1 hrejected
        refine step_without_of_rejected hfault hrejects ?_
        rw [before_line htext, isRejection_at htext, hrejects]
      case isFalse hrejected =>
        refine step_without fun problem hfault => ?_
        rw [before_line htext, isRejection_at htext, Bool.eq_false_iff]
        exact fun hrejects => hrejected ((isRejected_iff htext).2 ⟨problem, hfault, hrejects⟩)

/-- The source where the rejected lines are emptied gives the same program, the same names of sections
and the same warnings.  Its errors are those of the source, in order, without the errors of these
lines. -/
theorem rejected_lines_traceless (source : String) :
    Reading.of (emptyRejected source) =
      { Reading.of source with
        diagnostics := ⟨(Reading.of source).diagnostics.warnings,
          (Reading.of source).diagnostics.errors.filter fun e => !isRejection source e⟩ } := by
  have hlength : (linesOf (emptyRejected source)).length = (linesOf source).length := by
    rw [linesOf_emptyRejected, linesKept, List.length_mapIdx]
  have hread := Reader.before_emptyRejected (le_refl (linesOf source).length)
  rw [← hlength, Reader.before_length, hlength, Reader.before_length] at hread
  rw [Reading.of_diagnostics, Reading.of, Reader.read, hread, Reader.without, Reader.close_noting]
  rfl

-- The second definition is emptied.  The label, whose name is taken too, stays, with its error.
example : emptyRejected "define a 1\ndefine a 2\na: yield\n?" = "define a 1\n\na: yield\n" := by
  decide +kernel

end ChipAsm
