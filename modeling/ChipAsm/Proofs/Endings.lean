import ChipAsm.Proofs.Command
import ChipAsm.Proofs.Placement
import ChipAsm.Proofs.SourceText

/-!
# How the command ends

Past its arguments, the command can fail in three ways: the input fails to assemble, the output has no
name, or it cannot be written.  The first and the last are reported, with the exit code of their blame.
The second is not caught: it escapes the command (`escapes_iff_unnamed`).

The name of the output is the name of the input with a marker in it.  The input was found, so it has a
name, which is neither empty nor a dot and has no slash.  Then the output has one too, unless the
environment sets a marker with a slash (`isName_outputName`).
-/

namespace ChipAsm

open ChipAsm.Text

/-! ## Names of files -/

namespace Path

theorem mem_parts_ofText {text part : String} (h : part ∈ (ofText text).parts) :
    part.toList ≠ [] ∧ '/' ∉ part.toList := by
  obtain ⟨piece, hpiece, rfl⟩ := List.mem_map.1 h
  obtain ⟨hmem, hproper⟩ := List.mem_filter.1 hpiece
  rw [String.toList_ofList]
  refine ⟨?_, not_mem_of_mem_splitAtSep hmem⟩
  rintro rfl
  cases hproper

theorem name_mem_parts {p : Path} (h : p.parts ≠ []) : p.name ∈ p.parts := by
  rw [name, List.getLast?_eq_getLast_of_ne_nil h]
  exact List.getLast_mem h

theorem isName_of_no_slash {cs : List Char} (hslash : '/' ∉ cs) (hne : cs ≠ []) (hdot : cs ≠ ['.']) :
    isName cs = true := by
  have hpieces : splitAtSep '/' cs = [cs] := by
    have hsplit : (List.intercalate ['/'] [cs]).splitOn '/' = [cs] :=
      List.splitOn_intercalate '/' (by simpa using hslash) (by simp)
    rwa [List.intercalate_singleton, ← splitAtSep_eq_splitOn] at hsplit
  have hparts : properParts cs = [String.ofList cs] := by
    rw [properParts, hpieces]
    simp [hne, hdot]
  have hfirst : cs.head? ≠ some '/' := fun h => hslash (List.mem_of_mem_head? h)
  have hlast : cs.getLast? ≠ some '/' := fun h => hslash (List.mem_of_mem_getLast? h)
  simp [isName, hparts, hfirst, hlast]

theorem suffixOf_subset (cs : List Char) : ∀ c ∈ suffixOf cs, c = '.' ∨ c ∈ cs := by
  intro c hc
  simp only [suffixOf] at hc
  split at hc
  · rename_i first more _ _ _ htake _
    rw [List.mem_cons, List.mem_reverse, ← htake] at hc
    exact hc.imp_right fun hmem => List.mem_reverse.1 ((List.takeWhile_subset _) hmem)
  · cases hc

end Path

namespace Settings

theorem marker_ne_empty (env : List (String × String)) : (ofEnvironment env).marker ≠ "" := by
  have hset : ∀ name, setting? env name ≠ some "" := by
    intro name h
    rw [setting?] at h
    split at h
    · cases h
    · split at h
      · cases h
      · rename_i hne
        exact hne (Option.some.inj h)
  rw [ofEnvironment]
  cases hmarker : setting? env "IC10_INLINER_MARKER" with
  | none =>
      show ".min" ≠ ""
      decide
  | some value =>
      rintro rfl
      exact hset _ hmarker

theorem extension_subset (settings : Settings) (name : List Char) :
    ∀ c ∈ settings.extension name, c = '.' ∨ c ∈ name := by
  intro c hc
  rw [extension] at hc
  split at hc
  · exact Path.suffixOf_subset name c hc
  · split at hc
    · exact .inr (List.mem_of_mem_drop hc)
    · cases hc

/-- A marker without a slash makes a name of a name. -/
theorem isName_outputName {settings : Settings} {name : List Char} (hmarker : settings.marker ≠ "")
    (hslash : '/' ∉ settings.marker.toList) (hne : name ≠ []) (hname : '/' ∉ name) :
    Path.isName (settings.outputName name) = true := by
  have hlength : 0 < settings.marker.toList.length := by
    rw [List.length_pos_iff]
    exact fun h => hmarker (String.toList_eq_nil_iff.1 h)
  refine Path.isName_of_no_slash (fun hmem => ?_) ?_ ?_
  · simp only [outputName, List.mem_append] at hmem
    rcases hmem with (hmem | hmem) | hmem
    · exact hname (List.mem_of_mem_take hmem)
    · exact hslash hmem
    · rcases settings.extension_subset name _ hmem with hdot | hmem
      · exact absurd hdot (by decide)
      · exact hname hmem
  · intro hnil
    have hzero := congrArg List.length hnil
    simp only [outputName, List.length_append, List.length_nil] at hzero
    omega
  · -- A single character would be the marker alone, but all of the name is left around it.
    intro hdot
    have hone := congrArg List.length hdot
    have hleft := List.length_pos_iff.2 hne
    simp only [outputName, List.length_append, List.length_take, List.length_cons,
      List.length_nil] at hone
    omega

end Settings

/-! ## The input that was found -/

/-- A path through nothing but empty parts and dots stays where it starts. -/
theorem Directory.follow_of_idle {d : Directory} {start parts : List String}
    (hstart : d.get? start = some .folder) (h : ∀ part ∈ parts, part = "" ∨ part = ".") :
    d.follow start parts = .ok .folder := by
  induction parts with
  | nil => rw [follow, hstart]
  | cons part parts ih =>
      rw [List.forall_mem_cons] at h
      rw [follow_cons_of_folder hstart, if_pos h.1, ih h.2]

theorem Directory.parts_ne_nil_of_locate {d : Directory} {path : String} {names : List String}
    {bytes : List UInt8} (h : d.locate path = .ok (.file names bytes)) :
    (Path.ofText path).parts ≠ [] := by
  intro hparts
  have hidle : ∀ part ∈ (splitAtSep '/' path.toList).map String.ofList, part = "" ∨ part = "." := by
    rw [Path.ofText, Path.properParts, List.map_eq_nil_iff, List.filter_eq_nil_iff] at hparts
    intro part hpart
    obtain ⟨piece, hpiece, rfl⟩ := List.mem_map.1 hpart
    have himproper := hparts piece hpiece
    simp only [Bool.and_eq_true, bne_iff_ne, ne_eq, not_and_or, not_not] at himproper
    rcases himproper with rfl | rfl
    · exact .inl rfl
    · exact .inr rfl
  have hground : ∀ start, isGround start = true →
      d.follow start ((splitAtSep '/' path.toList).map String.ofList) ≠ .ok (.file names bytes) := by
    intro start hstart hfile
    cases (follow_of_idle (get?_of_isGround hstart) hidle).symm.trans hfile
  simp only [locate] at h
  split_ifs at h
  split at h
  · cases h
  · exact hground _ rfl h
  · exact hground _ rfl h

namespace Command

theorem checkInput_eq_ok {look : String → Except FileCause Spot} {i : Invocation} {input : Path}
    (h : checkInput look i = .ok input) :
    ∃ path names bytes, look path = .ok (.file names bytes) ∧ input = Path.ofText path := by
  rw [checkInput] at h
  split at h
  · cases h
  · split at h
    · cases h
    · rename_i path _ _ _ names bytes hlook
      split at h
      · cases h
        exact ⟨path, names, bytes, hlook, rfl⟩
      · cases h
    · cases h

theorem accept_eq_ok {look : String → Except FileCause Spot} {args : List String} {i : Invocation}
    {input : Path} (h : accept look args = .ok (i, input)) : checkInput look i = .ok input := by
  rw [accept] at h
  split at h
  · cases h
  · split at h
    · cases h
    · cases h
    · split at h
      · cases h
      · obtain ⟨input', hinput, heq⟩ := map_eq_ok.1 h
        cases heq
        exact hinput

/-! ## The end of a run -/

variable {d : Directory} {env : List (String × String)} {i : Invocation} {input : Path}

theorem Blame.exitCode_mem (blame : Blame) : blame.exitCode ∈ [0, 1, 2, 3] := by
  cases blame <;> decide

/-- There is no path for the output exactly when none is asked for and the name is no name of a file. -/
theorem target?_eq_none_iff (hparts : input.parts ≠ []) :
    target? i env input = none ↔ i.output = none ∧
      Path.isName ((Settings.ofEnvironment env).outputName input.name.toList) = false := by
  rw [target?]
  cases i.output with
  | some path => simp
  | none =>
      rw [Settings.outputPath?, Settings.outputPath, Path.withName, if_neg hparts, String.toList_ofList]
      cases Path.isName ((Settings.ofEnvironment env).outputName input.name.toList) with
      | true => simp [Except.toOption]
      | false => simp [Except.toOption]

/-- A report, and the directory that is left, as they follow from what the command met. -/
structure Ends (d : Directory) (i : Invocation) (env : List (String × String)) (input : Path)
    (report : Report) (d' : Directory) : Prop where
  /-- The exit code is one of four. -/
  code : report.exitCode ∈ [0, 1, 2, 3]
  /-- A failure to assemble the input is reported. -/
  failed : ∀ failure, Fails d i input failure →
    ∃ log, report = .ofFailure i.verbose log "Assembly" failure
  /-- A failure to write the output is reported. -/
  unwritten : ∀ a output fault, Assembles d i input a → a.valid = true →
    target? i env input = some output →
    d.writeBytes output.clean (encodeUtf8 a.output) = .error fault →
      ∃ log, report = .ofFailure i.verbose log "Output" (.file fault)
  /-- A failure escapes exactly when there is a valid result but no path for it. -/
  escapes : report.escaped ≠ none ↔
    (∃ a, Assembles d i input a ∧ a.valid = true) ∧ target? i env input = none
  /-- It is the failure to name the output, and then nothing is written. -/
  kept : report.escaped ≠ none → d' = d ∧
    ∃ fault, outputOf i (settingsOf i env) input = .error fault ∧
      report.escaped = some (.outputName fault)

theorem Course.perform {stage : Stage} (h : Course d i env input stage) :
    ∃ report d', stage.perform d = (.report report, d') ∧ Ends d i env input report d' := by
  cases h with
  | @failed log failure hfails =>
      refine ⟨_, d, rfl, Blame.exitCode_mem _, fun failure' h => ⟨log, hfails.unique h ▸ rfl⟩,
        fun a _ _ ha => (hfails.not_assembles ha).elim, ⟨fun h => absurd rfl h, ?_⟩,
        fun h => absurd rfl h⟩
      rintro ⟨⟨a, ha, -⟩, -⟩
      exact (hfails.not_assembles ha).elim
  | @invalid a report ha hvalid hcode hescaped =>
      have hall : ∀ b, Assembles d i input b → b.valid = false := fun b hb => ha.unique hb ▸ hvalid
      refine ⟨report, d, rfl, by simp [hcode], fun failure h => (h.not_assembles ha).elim,
        fun b _ _ hb hb' => ?_, ⟨fun h => absurd hescaped h, ?_⟩, fun h => absurd hescaped h⟩
      · cases (hall b hb).symm.trans hb'
      · rintro ⟨⟨b, hb, hb'⟩, -⟩
        cases (hall b hb).symm.trans hb'
  | @unnamed log a fault ha hvalid houtput =>
      have htarget := target?_eq_none houtput
      refine ⟨_, d, rfl, by simp, fun failure h => (h.not_assembles ha).elim,
        fun _ _ _ _ _ htarget' => ?_, ⟨fun _ => ⟨⟨a, ha, hvalid⟩, htarget⟩, fun _ => by simp⟩,
        fun _ => ⟨rfl, fault, houtput, rfl⟩⟩
      cases htarget.symm.trans htarget'
  | @write log a output next ha hvalid htarget hdone hundone =>
      rw [Stage.perform]
      have hnamed : ¬ ((∃ a, Assembles d i input a ∧ a.valid = true) ∧ target? i env input = none) :=
        fun h => by cases htarget.symm.trans h.2
      cases hwrite : d.writeBytes output.clean (encodeUtf8 a.output) with
      | ok d' =>
          refine ⟨next none, d', rfl, by simp [hdone.1], fun failure h => (h.not_assembles ha).elim,
            fun b output' fault hb _ htarget' hfault => ?_,
            ⟨fun h => absurd hdone.2 h, fun h => absurd h hnamed⟩, fun h => absurd hdone.2 h⟩
          cases ha.unique hb
          cases htarget.symm.trans htarget'
          cases hwrite.symm.trans hfault
      | error fault =>
          dsimp only
          rw [hundone]
          refine ⟨_, d, rfl, Blame.exitCode_mem _, fun failure h => (h.not_assembles ha).elim,
            fun b output' fault' hb _ htarget' hfault => ?_,
            ⟨fun h => absurd rfl h, fun h => absurd h hnamed⟩, fun h => absurd rfl h⟩
          cases ha.unique hb
          cases htarget.symm.trans htarget'
          cases hwrite.symm.trans hfault
          exact ⟨log, rfl⟩

/-- Past its arguments, the command ends with a report, whose exit code is one of four.

What it fails at is reported, but for a failure to name the output, which escapes.  That is so exactly
when there is a valid result, no output is asked for, and the marked name of the input is no name of a
file.  The marker must have a slash for that. -/
theorem escapes_iff_unnamed {args : List String} (haccept : accept d.locate args = .ok (i, input)) :
    ∃ report d', runIn d env args = (.report report, d') ∧ Ends d i env input report d' ∧
      (target? i env input = none ↔ i.output = none ∧
        Path.isName ((Settings.ofEnvironment env).outputName input.name.toList) = false) ∧
      ('/' ∉ (Settings.ofEnvironment env).marker.toList → report.escaped = none) := by
  have hrun : runIn d env args = (stageOf i env input (d.readBytes input)).perform d := by
    rw [runIn, haccept]
  obtain ⟨report, d', hperform, hends⟩ := (course_of_stageOf i env input d).perform
  obtain ⟨path, names, bytes, hlook, rfl⟩ := checkInput_eq_ok (accept_eq_ok haccept)
  have hparts := Directory.parts_ne_nil_of_locate hlook
  have hunnamed := @target?_eq_none_iff env i _ hparts
  refine ⟨report, d', hrun.trans hperform, hends, hunnamed, fun hslash => ?_⟩
  obtain ⟨hne, hname⟩ := Path.mem_parts_ofText (Path.name_mem_parts hparts)
  have hisName := Settings.isName_outputName (Settings.marker_ne_empty env) hslash hne hname
  by_contra hescaped
  cases hisName.symm.trans (hunnamed.1 (hends.escapes.1 hescaped).2).2

/-- A directory whose source file is no text. -/
def noText : Directory := ⟨[(["a.ic10"], .file [0xFF])]⟩

/-- What is wrong with the input is found first: the marker has a slash, and nothing escapes. -/
theorem escapes_iff_unnamed_noText :
    ∃ i report d', accept noText.locate ["a.ic10"] = .ok (i, ⟨0, ["a.ic10"]⟩) ∧
      runIn noText [("IC10_INLINER_MARKER", "/min")] ["a.ic10"] = (.report report, d') ∧
      report.exitCode = 2 ∧ report.escaped = none := by
  let i : Invocation := { files := ["a.ic10"] }
  have haccept : accept noText.locate ["a.ic10"] = .ok (i, ⟨0, ["a.ic10"]⟩) := by rfl
  obtain ⟨report, d', hrun, hends, -, -⟩ :=
    @escapes_iff_unnamed _ [("IC10_INLINER_MARKER", "/min")] _ _ _ haccept
  have hread : noText.readBytes ⟨0, ["a.ic10"]⟩ = .ok [0xFF] := by decide +kernel
  obtain ⟨failure, hfailure, hblame⟩ : ∃ failure, Session.textOf [0xFF] = .error failure ∧
      (blame failure).exitCode = 2 := ⟨_, rfl, rfl⟩
  obtain ⟨log, rfl⟩ := hends.failed failure (.inr (.inl ⟨_, hread, hfailure⟩))
  exact ⟨i, _, d', haccept, hrun, hblame, rfl⟩

/-- The failure that ended the command without being reported. -/
def Ending.escaped : Ending → Option Failure
  | .report r => r.escaped
  | _ => none

/-- The source file of `twoFiles` assembles, but a marker that starts with a slash makes no name of a
file, and that failure escapes. -/
theorem slash_marker_escapes :
    ∃ i, accept twoFiles.locate ["a.ic10"] = .ok (i, ⟨0, ["a.ic10"]⟩) ∧
      (runIn twoFiles [("IC10_INLINER_MARKER", "/min")] ["a.ic10"]).1.escaped =
        some (.outputName (.unusable "a/min.ic10")) := by
  refine ⟨{ files := ["a.ic10"] }, rfl, ?_⟩
  decide +kernel

end Command

end ChipAsm
