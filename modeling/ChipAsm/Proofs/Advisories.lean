import Mathlib.Data.List.Perm.Lattice
import ChipAsm.Proofs.Accounting

/-!
# Size advisories

Lines are counted as they are emitted, and not as they stand in the source or in a section: an
instruction that does not fit the table gives no line, and an alias that is kept gives one.  When the
count comes to the threshold of an advisory, it is raised at the source line of the instruction that the
line is emitted for (`Advisory.raised`).

The count takes every number from one to the length of the output exactly once.  So an advisory with such
a threshold is raised once, whatever the order of the advisories is and however often a threshold occurs
among them, and any other never is (`raised_perm`).
-/

namespace ChipAsm

namespace Advisory

variable {advisories : List Advisory}

/-- The advisories for a number of lines, in their order. -/
def dueAt (advisories : List Advisory) (count : Nat) : List Advisory :=
  advisories.filter fun d => d.threshold = (count : Int)

/-- The count of lines comes to the threshold on its way from `start` to `stop`. -/
def isReached (start stop : Nat) (d : Advisory) : Bool :=
  decide ((start : Int) < d.threshold ∧ d.threshold ≤ (stop : Int))

/-- The advisories that are raised when the lines of instructions are emitted behind `before` others,
each with the instruction whose line it is raised at. -/
def raised (advisories : List Advisory) (before : Nat) (origins : List Instruction) :
    List (Advisory × Instruction) :=
  (origins.zipIdx (before + 1)).flatMap fun (l, count) => (dueAt advisories count).map fun d => (d, l)

theorem raised_cons (before : Nat) (l : Instruction) (origins : List Instruction) :
    raised advisories before (l :: origins) =
      ((dueAt advisories (before + 1)).map fun d => (d, l)) ++ raised advisories (before + 1) origins := by
  rw [raised, List.zipIdx_cons, List.flatMap_cons, raised]

/-- What is advised depends on the source lines of the emitted lines only. -/
theorem advise_eq {emission : List (String × Nat)} {origins : List Instruction}
    (h : emission.map Prod.snd = origins.map Instruction.sourceLine) (before : Nat) :
    advise advisories before emission =
      (raised advisories before origins).map fun (d, l) =>
        ⟨.note d.message, some (l.sourceLine : Int)⟩ := by
  induction origins generalizing emission before with
  | nil =>
      rw [List.map_nil, List.map_eq_nil_iff] at h
      rw [h]
      rfl
  | cons l origins ih =>
      obtain ⟨line, rest, rfl, hline, hrest⟩ := List.map_eq_cons_iff.1 h
      rw [advise, raised_cons, ih hrest, hline, List.map_append, List.map_map]
      rfl

/-- The advisories that are raised are those with a threshold that the count comes to, each as often as
it is there. -/
theorem raised_perm (before : Nat) (origins : List Instruction) :
    ((raised advisories before origins).map Prod.fst).Perm
      (advisories.filter (isReached before (before + origins.length))) := by
  induction origins generalizing before with
  | nil =>
      have hnone : advisories.filter (isReached before before) = [] := by
        rw [List.filter_eq_nil_iff]
        intro d _ hd
        have hbetween := of_decide_eq_true hd
        omega
      exact .of_eq hnone.symm
  | cons l origins ih =>
      -- The first count takes the advisories that are due, and the others are left to the rest.
      have hfirst : (raised advisories before (l :: origins)).map Prod.fst =
          dueAt advisories (before + 1) ++ (raised advisories (before + 1) origins).map Prod.fst := by
        rw [raised_cons, List.map_append, List.map_map]
        simp [Function.comp_def]
      have hdue : dueAt advisories (before + 1) =
          (advisories.filter (isReached before (before + (l :: origins).length))).filter
            fun d => d.threshold = ((before + 1 : Nat) : Int) := by
        rw [List.filter_filter, dueAt]
        refine List.filter_congr fun d _ => ?_
        simp only [isReached, List.length_cons]
        grind
      have hlater : advisories.filter (isReached (before + 1) (before + 1 + origins.length)) =
          (advisories.filter (isReached before (before + (l :: origins).length))).filter
            fun d => !decide (d.threshold = ((before + 1 : Nat) : Int)) := by
        rw [List.filter_filter]
        refine List.filter_congr fun d _ => ?_
        simp only [isReached, List.length_cons]
        grind
      rw [hfirst, hdue]
      exact ((ih (before + 1)).append_left _).trans (hlater ▸ List.filter_append_perm _ _)

end Advisory

/-! ## The warnings of a run -/

/-- What the warnings of a result say about the lines of its output, where `origins` are the instructions
that they are emitted for. -/
structure Reading.Advises (reading : Reading) (table : Table) (options : Options)
    (advisories : List Advisory) (a : Assembly) (origins : List Instruction) : Prop where
  /-- There is one instruction for each line. -/
  count : origins.length = a.lines.length
  /-- Each line is emitted for its instruction. -/
  lines : ∀ (n : Nat) (l : Instruction), origins[n]? = some l →
    ∃ texts, reading.Emits table options n l texts ∧ a.lines[n]? = some (renderLine options l texts)
  /-- The advisories follow the warnings of reading.  They stand in the order of their counts, and those
  for one count in their own order. -/
  warnings : a.diagnostics.warningTexts = reading.diagnostics.warningTexts ++
    (Advisory.raised advisories 0 origins).map fun (d, l) => s!"{d.message} at line {l.sourceLine}"
  /-- Every advisory with a threshold between one and the number of lines is raised once, and no other
  is. -/
  once : ((Advisory.raised advisories 0 origins).map Prod.fst).Perm
    (advisories.filter (Advisory.isReached 0 a.lines.length))

variable {source : String} {table : Table} {advisories : List Advisory} {options : Options}
  {a : Assembly}

theorem warnings_of_assemble (hvalid : (Reading.of source).valid = true)
    (hrun : ((Reading.of source).assemble table advisories options).result = .ok a) :
    a.diagnostics.warningTexts = (Reading.of source).diagnostics.warningTexts ++
      (Advisory.raised advisories 0
        ((a.sections.flatMap Section.lines).filter table.fits)).map fun (d, l) =>
          s!"{d.message} at line {l.sourceLine}" := by
  obtain ⟨outcomes, houtcomes, rfl⟩ := Reading.assemble_result hvalid hrun
  simp only [Assembly.ofOutcomes, Diagnostics.merge, Diagnostics.warningTexts, List.map_append,
    Advisory.advise_eq (sourceLines_emitted houtcomes), List.map_map]
  rfl

/-- A run of a source without errors has the warnings of reading, and behind them each advisory that its
output reaches once; or it is stopped by an operand that cannot be read or written. -/
theorem advisories_raised_once (table : Table) (advisories : List Advisory) (options : Options)
    (hvalid : (Reading.of source).valid = true) :
    (∃ a origins, ((Reading.of source).assemble table advisories options).result = .ok a ∧
      (Reading.of source).Advises table options advisories a origins) ∨
    ∃ fault, ((Reading.of source).assemble table advisories options).result = .error fault ∧
      (Reading.of source).Faults table options fault := by
  cases hrun : ((Reading.of source).assemble table advisories options).result with
  | error fault => exact .inr ⟨fault, rfl, stops_at_operand hvalid hrun⟩
  | ok a =>
      have haccounts := accounts_of_assemble hvalid hrun
      refine .inl ⟨a, (a.sections.flatMap Section.lines).filter table.fits, rfl, ?_⟩
      constructor
      case count => exact haccounts.count.symm
      case lines =>
        intro n l hl
        obtain ⟨texts, hemits, -, hline⟩ := haccounts.lines n l hl
        exact ⟨texts, hemits, hline⟩
      case warnings => exact warnings_of_assemble hvalid hrun
      case once =>
        have hperm := @Advisory.raised_perm advisories 0
          ((a.sections.flatMap Section.lines).filter table.fits)
        rwa [Nat.zero_add, ← haccounts.count] at hperm

/-- A name is bound to two devices, which gives a warning and two lines.  Between them stands an
instruction that is not in the table. -/
def reboundPump : String := "alias pump d0\nfrob\nalias pump d1\nyield"

/-- Thresholds out of order, repeated, and out of reach. -/
def scatteredAdvisories : List Advisory :=
  [⟨3, "long"⟩, ⟨2, "two"⟩, ⟨0, "none"⟩, ⟨2, "second"⟩, ⟨-1, "less"⟩, ⟨4, "more"⟩, ⟨3, "long"⟩]

theorem advisories_raised_once_scattered :
    (Reading.of reboundPump).valid = true ∧
    ∃ a origins, ((Reading.of reboundPump).assemble .standard scatteredAdvisories {}).result = .ok a ∧
      a.lines = ["alias pump d0", "alias pump d1", "yield"] ∧
      a.diagnostics.warningTexts =
        ["Duplicate direct device pin alias pump at line 2", "two at line 2", "second at line 2",
          "long at line 3", "long at line 3"] ∧
      (Reading.of reboundPump).Advises .standard {} scatteredAdvisories a origins := by
  have hvalid : (Reading.of reboundPump).valid = true := by decide +kernel
  have hresult : ((Reading.of reboundPump).assemble .standard scatteredAdvisories {}).result.map
      (fun a => (a.lines, a.diagnostics.warningTexts)) =
        .ok (["alias pump d0", "alias pump d1", "yield"],
          ["Duplicate direct device pin alias pump at line 2", "two at line 2", "second at line 2",
            "long at line 3", "long at line 3"]) := by
    decide +kernel
  obtain ⟨a, hrun, ha⟩ := map_eq_ok.1 hresult
  obtain ⟨hlines, hwarnings⟩ := Prod.mk.inj ha
  obtain ⟨a', origins, hrun', hadvises⟩ | ⟨fault, hstopped, -⟩ :=
    advisories_raised_once .standard scatteredAdvisories {} hvalid
  · cases hrun.symm.trans hrun'
    exact ⟨hvalid, a, origins, hrun, hlines, hwarnings, hadvises⟩
  · cases hrun.symm.trans hstopped

end ChipAsm
