import ChipAsm.Session
import ChipAsm.Proofs.History

/-!
# Strict sessions

A strict session looks for errors twice: when it has read the source, and when it has assembled what was
read.  One that is not strict never looks, and returns what it has.  `Session.assemble_outcome` says what
either makes of a source.

The two give the same verdict (`strict_agrees`).  A reading with errors is assembled to a result with the
same errors and one more, so the strict session returns nothing that the other would not return as a valid
result, and fails with the errors that the other returns in an invalid one.
-/

namespace ChipAsm

theorem Assembly.refused_valid {reading : Reading} : (Assembly.refused reading).valid = false := by
  simp [refused, valid, Diagnostics.valid, Diagnostics.fail]

theorem Assembly.refused_errorTexts (reading : Reading) :
    (Assembly.refused reading).diagnostics.errorTexts =
      reading.diagnostics.errorTexts ++ ["Unable to assemble due to parse errors"] := by
  simp only [refused, Diagnostics.fail, Diagnostics.errorTexts, List.map_append]
  rfl

namespace Session

/-! ## The outcome of a source -/

/-- What becomes of a source in a session. -/
theorem assemble_outcome (s : Session) (source : String) :
    (s.assemble source).2 =
      if s.strict && !(Reading.of source).valid then
        .error (.reading s.sourceName (Reading.of source).diagnostics)
      else
        match ((Reading.of source).assemble s.table s.settings.advisories s.options).result with
        | .error fault => .error (.numeral fault)
        | .ok result =>
          if s.strict && !result.valid then .error (.assembly s.sourceName result.diagnostics)
          else .ok result := by
  rw [assemble, read]
  cases hrefused : s.strict && !(Reading.of source).valid with
  | true =>
      simp only [if_true]
      rfl
  | false =>
      simp only [Bool.false_eq_true, if_false, run]
      cases ((Reading.of source).assemble s.table s.settings.advisories s.options).result with
      | error fault => rfl
      | ok result =>
          dsimp only
          split
          · rfl
          · rfl

/-- A session that is not strict keeps the reading as the run has left it. -/
theorem assemble_reading {s : Session} (h : s.strict = false) (source : String) :
    (s.assemble source).1.reading =
      some ((Reading.of source).assemble s.table s.settings.advisories s.options).reading := by
  simp only [assemble, read, h, Bool.false_and, Bool.false_eq_true, if_false, run]
  cases ((Reading.of source).assemble s.table s.settings.advisories s.options).result with
  | error fault => rfl
  | ok result => rfl

/-! ## Strict or not -/

/-- The session, strict or not. -/
def withStrict (s : Session) (strict : Bool) : Session := { s with strict := strict }

/-- What a strict session may do with a source of the given name that has the reading `p`, where one that
is not strict returns `r`. -/
structure StrictOutcome (outcome : Except Failure Assembly) (name : String) (p : Reading)
    (r : Assembly) : Prop where
  returned : ∀ r', outcome = .ok r' ↔ r.valid = true ∧ r' = r
  readingFailed : ∀ source d, outcome = .error (.reading source d) ↔
    p.valid = false ∧ source = name ∧ d = p.diagnostics
  assemblyFailed : ∀ source d, outcome = .error (.assembly source d) ↔
    (p.valid = true ∧ r.valid = false) ∧ source = name ∧ d = r.diagnostics
  refused : p.valid = false → r.diagnostics.warnings = p.diagnostics.warnings ∧
    r.diagnostics.errors = p.diagnostics.errors ++ [⟨.unassemblable, none⟩] ∧
    r.diagnostics.errorTexts =
      p.diagnostics.errorTexts ++ ["Unable to assemble due to parse errors"]

theorem StrictOutcome.ofInvalid {p : Reading} {name : String} (h : p.valid = false) :
    StrictOutcome (.error (.reading name p.diagnostics)) name p (.refused p) where
  returned r' := by simp [Assembly.refused_valid]
  readingFailed source d := by simp [h, eq_comm]
  assemblyFailed source d := by simp [h]
  refused _ := ⟨rfl, rfl, Assembly.refused_errorTexts p⟩

theorem StrictOutcome.ofValid {p : Reading} {name : String} {r : Assembly} (h : p.valid = true) :
    StrictOutcome (if !r.valid then .error (.assembly name r.diagnostics) else .ok r) name p r := by
  cases hr : r.valid with
  | true =>
      exact
        { returned := fun r' => by simp [hr, eq_comm]
          readingFailed := fun source d => by simp [h]
          assemblyFailed := fun source d => by simp [hr]
          refused := fun hinvalid => by simp [h] at hinvalid }
  | false =>
      exact
        { returned := fun r' => by simp [hr]
          readingFailed := fun source d => by simp [h]
          assemblyFailed := fun source d => by simp [h, hr, eq_comm]
          refused := fun hinvalid => by simp [h] at hinvalid }

end Session

/-- Where a session that is not strict returns a result, a strict one returns the same if it is valid.  It
fails on the reading if and only if that has errors, with the remarks of the reading, and on the result if
and only if the reading has no errors and the result has, with the remarks of the result. -/
theorem strict_agrees {s : Session} {source : String} {r : Assembly}
    (h : ((s.withStrict false).assemble source).2 = .ok r) :
    ∃ p, ((s.withStrict false).assemble source).1.reading = some p ∧
      p.unplaced = Reading.of source ∧
      Session.StrictOutcome ((s.withStrict true).assemble source).2 s.sourceName p r := by
  have hresult : ((Reading.of source).assemble s.table s.settings.advisories s.options).result =
      .ok r := by
    rw [Session.assemble_outcome] at h
    simp only [Session.withStrict, Bool.false_and, Bool.false_eq_true, if_false] at h
    split at h
    · cases h
    · rename_i hok
      rw [hok, Except.ok.inj h]
  refine ⟨_, Session.assemble_reading rfl source, ?_, ?_⟩
  · rw [Reading.reading_assemble_unplaced, Reading.of_unplaced]
  rw [Session.assemble_outcome]
  simp only [Session.withStrict, Bool.true_and]
  cases hvalid : (Reading.of source).valid with
  | false =>
      -- Nothing is placed, and the result is the refusal.
      have hrun : (Reading.of source).assemble s.table s.settings.advisories s.options =
          ⟨Reading.of source, [], .ok (.refused (Reading.of source))⟩ := by
        rw [Reading.assemble, if_neg (by simp [hvalid])]
      rw [hrun] at hresult ⊢
      cases hresult
      exact .ofInvalid hvalid
  | true =>
      rw [hresult]
      refine .ofValid ?_
      have hsame := congrArg Reading.valid (Reading.reading_assemble_unplaced (Reading.of source)
        s.table s.settings.advisories s.options)
      exact hsame.trans hvalid

/-- A session with the standard table. -/
def plainSession : Session := { table := .standard }

/-- The result for a definition without a value: its own error, and that nothing is assembled. -/
def withoutValue : Assembly :=
  { diagnostics := ⟨[], [⟨.defineCount, some 0⟩, ⟨.unassemblable, none⟩]⟩ }

theorem strict_agrees_withoutValue :
    ((plainSession.withStrict false).assemble "define a").2 = .ok withoutValue ∧
      ((plainSession.withStrict true).assemble "define a").2 =
        .error (.reading "<input>" ⟨[], [⟨.defineCount, some 0⟩]⟩) ∧
      ∃ p, ((plainSession.withStrict false).assemble "define a").1.reading = some p ∧
        p.unplaced = Reading.of "define a" ∧
        Session.StrictOutcome ((plainSession.withStrict true).assemble "define a").2
          plainSession.sourceName p withoutValue := by
  have h : ((plainSession.withStrict false).assemble "define a").2 = .ok withoutValue := by
    decide +kernel
  exact ⟨h, by decide +kernel, strict_agrees h⟩

-- An instruction that the table does not hold is found by the run, not by the reader.
example : ((plainSession.withStrict true).assemble "frob r0").2 =
    .error (.assembly "<input>" ⟨[], [⟨.unknownMnemonic "frob", some 0⟩]⟩) := by
  decide +kernel

end ChipAsm
