import Mathlib.Data.List.Induction
import ChipAsm.Proofs.Directory
import ChipAsm.InstructionSet
import ChipAsm.Session

/-!
# What a session writes

A session keeps the last source file and the last result, and it keeps them apart.  An action that names
a file replaces the file, whether it can be read or not.  An action that assembles a text replaces the
result, whether the text comes from a file or not, unless the text is refused or the run is stopped.

So what is written to the path that is derived from the last source file is the result of the last action
that had one (`written_is_last_result`).  It belongs to the file only if that action is the one that named
the file; a text that is assembled later is written in its place (`other_text_written`).
-/

namespace ChipAsm

open ChipAsm.Text ChipAsm.Number

/-! ## Actions -/

/-- What may be asked of a session. -/
inductive Action where
  /-- Read a text. -/
  | read (source : String)
  /-- Assemble a text. -/
  | assemble (source : String)
  /-- Assemble a file. -/
  | assembleFile (path : Path)
  /-- Write the last result to a path, or to the one derived from the last source file. -/
  | write (path : Option Path)
deriving Repr, DecidableEq

namespace Action

/-- The session and the directory behind an action, whether it succeeds or fails. -/
def perform (action : Action) (state : Session × Directory) : Session × Directory :=
  let (s, d) := state
  match action with
  | .read source => ((s.read source).1, d)
  | .assemble source => ((s.assemble source).1, d)
  | .assembleFile path => ((s.assembleFile d path).1, d)
  | .write path => (s, (s.write d path).1)

/-- The session and the directory behind actions in a row. -/
def performAll (actions : List Action) (state : Session × Directory) : Session × Directory :=
  actions.foldl (fun state action => action.perform state) state

/-- The file that an action assembles. -/
def file? : Action → Option Path
  | .assembleFile path => some path
  | _ => none

/-- The text that an action assembles, where files are taken from the directory. -/
def text? (d : Directory) : Action → Option String
  | .assemble source => some source
  | .assembleFile path => (d.readBytes path).toOption.bind fun bytes => (Session.textOf bytes).toOption
  | _ => none

end Action

namespace Session

/-- The result that is kept of a text: none where a strict session refuses it, or where the run is
stopped. -/
def resultOf? (s : Session) (text : String) : Option Assembly :=
  if s.strict && !(Reading.of text).valid then none
  else ((Reading.of text).assemble s.table s.settings.advisories s.options).result.toOption

/-- The result that is kept of an action. -/
def kept? (s : Session) (d : Directory) (action : Action) : Option Assembly :=
  (action.text? d).bind s.resultOf?

/-- The second session is asked to do the same as the first, in the same way. -/
structure SameTask (s t : Session) : Prop where
  options : t.options = s.options
  settings : t.settings = s.settings
  table : t.table = s.table
  strict : t.strict = s.strict

theorem SameTask.kept? {s t : Session} (h : s.SameTask t) : t.kept? = s.kept? := by
  have hresult : t.resultOf? = s.resultOf? := by
    funext text
    rw [resultOf?, resultOf?, h.options, h.settings, h.table, h.strict]
  funext d action
  rw [Session.kept?, Session.kept?, hresult]

/-! ## One action -/

/-- Assembling a text changes nothing but the reading and, if there is one, the result. -/
theorem assemble_eq (s : Session) (text : String) :
    ∃ reading, (s.assemble text).1 =
      { s with reading := reading, result := (s.resultOf? text).or s.result } := by
  rw [assemble, read, resultOf?]
  cases hrefused : s.strict && !(Reading.of text).valid with
  | true =>
      simp only [if_true]
      exact ⟨_, rfl⟩
  | false =>
      simp only [Bool.false_eq_true, if_false, run]
      cases ((Reading.of text).assemble s.table s.settings.advisories s.options).result with
      | error fault => exact ⟨_, rfl⟩
      | ok result =>
          dsimp only
          split
          · exact ⟨_, rfl⟩
          · exact ⟨_, rfl⟩

end Session

/-- An action replaces the result by its own, if it has one, and the source file by its own. -/
theorem Action.perform_eq (action : Action) (s : Session) (d : Directory) :
    ∃ reading, (action.perform (s, d)).1 =
      { s with
        reading := reading
        result := (s.kept? d action).or s.result
        source := action.file?.or s.source } := by
  cases action with
  | read source =>
      rw [perform, Session.read]
      dsimp only
      split
      · exact ⟨_, rfl⟩
      · exact ⟨_, rfl⟩
  | assemble source =>
      obtain ⟨reading, heq⟩ := s.assemble_eq source
      exact ⟨reading, heq⟩
  | assembleFile path =>
      simp only [perform, Session.assembleFile, Session.assembleBytes]
      cases hbytes : d.readBytes path with
      | error fault => exact ⟨s.reading, by simp [Session.kept?, text?, hbytes, Except.toOption, file?]⟩
      | ok bytes =>
          dsimp only
          cases htext : Session.textOf bytes with
          | error failure =>
              exact ⟨s.reading, by simp [Session.kept?, text?, hbytes, htext, Except.toOption, file?]⟩
          | ok text =>
              obtain ⟨reading, heq⟩ := Session.assemble_eq { s with source := some path } text
              refine ⟨reading, heq.trans ?_⟩
              simp [Session.kept?, text?, hbytes, htext, Except.toOption, file?]
              rfl
  | write path => exact ⟨s.reading, rfl⟩

theorem Action.perform_sameTask (action : Action) (s : Session) (d : Directory) :
    s.SameTask (action.perform (s, d)).1 := by
  obtain ⟨reading, heq⟩ := action.perform_eq s d
  rw [heq]
  exact ⟨rfl, rfl, rfl, rfl⟩

/-! ## Actions in a row -/

/-- The value `a` is the last one that there is. -/
def IsLast {α : Type} (values : Nat → Option α) (n : Nat) (a : α) : Prop :=
  values n = some a ∧ ∀ m, n < m → values m = none

section Steps

variable {σ ι α : Type} {step : σ → ι → σ} {news : σ → ι → Option α} {start : σ}

/-- What step `n` of a row brings. -/
def newsAt (step : σ → ι → σ) (news : σ → ι → Option α) (start : σ) (steps : List ι) (n : Nat) :
    Option α :=
  steps[n]?.bind (news ((steps.take n).foldl step start))

theorem newsAt_of_le {steps : List ι} {n : Nat} (h : steps.length ≤ n) :
    newsAt step news start steps n = none := by
  rw [newsAt, List.getElem?_eq_none h]
  rfl

theorem newsAt_concat_length (steps : List ι) (i : ι) :
    newsAt step news start (steps ++ [i]) steps.length = news (steps.foldl step start) i := by
  rw [newsAt, List.getElem?_concat_length, List.take_left]
  rfl

theorem newsAt_concat_of_lt {steps : List ι} {n : Nat} (h : n < steps.length) (i : ι) :
    newsAt step news start (steps ++ [i]) n = newsAt step news start steps n := by
  rw [newsAt, newsAt, List.getElem?_append_left h, List.take_append_of_le_length (Nat.le_of_lt h)]

/-- Where every step replaces a value by what it brings, the value at the end is the last that was
brought. -/
theorem last_of_foldl (value : σ → Option α)
    (hstep : ∀ state i, value (step state i) = (news state i).or (value state))
    (hstart : value start = none) (steps : List ι) :
    ∀ {a : α}, value (steps.foldl step start) = some a →
      ∃ n, IsLast (newsAt step news start steps) n a := by
  induction steps using List.reverseRecOn with
  | nil =>
      intro a ha
      exact absurd (hstart.symm.trans ha) (by simp)
  | append_singleton steps i ih =>
      intro a ha
      rw [List.foldl_append, List.foldl_cons, List.foldl_nil, hstep] at ha
      have hbehind : ∀ m, steps.length < m → newsAt step news start (steps ++ [i]) m = none :=
        fun m hm => newsAt_of_le (by rw [List.length_append, List.length_singleton]; omega)
      cases hnews : news (steps.foldl step start) i with
      | some b =>
          rw [hnews] at ha
          cases ha
          exact ⟨steps.length, (newsAt_concat_length steps i).trans hnews, hbehind⟩
      | none =>
          rw [hnews, Option.none_or] at ha
          obtain ⟨n, hn, hlater⟩ := ih ha
          have hlt : n < steps.length := by
            by_contra hge
            exact absurd ((newsAt_of_le (Nat.le_of_not_lt hge)).symm.trans hn) (by simp)
          refine ⟨n, (newsAt_concat_of_lt hlt i).trans hn, fun m hm => ?_⟩
          rcases Nat.lt_trichotomy m steps.length with hless | rfl | hmore
          · exact (newsAt_concat_of_lt hless i).trans (hlater m hm)
          · exact (newsAt_concat_length steps i).trans hnews
          · exact hbehind m hmore

end Steps

/-- The file that action `n` of a row assembles. -/
def fileAt? (actions : List Action) (n : Nat) : Option Path := actions[n]?.bind Action.file?

/-- The result that is kept of action `n` of a row, in the directory that the actions before it leave. -/
def Session.resultAt? (s : Session) (d : Directory) (actions : List Action) (n : Nat) :
    Option Assembly :=
  actions[n]?.bind (s.kept? (Action.performAll (actions.take n) (s, d)).2)

theorem performAll_sameTask (actions : List Action) (s : Session) (d : Directory) :
    s.SameTask (Action.performAll actions (s, d)).1 := by
  induction actions using List.reverseRecOn with
  | nil => exact ⟨rfl, rfl, rfl, rfl⟩
  | append_singleton actions action ih =>
      rw [Action.performAll, List.foldl_append]
      have hlast := action.perform_sameTask (Action.performAll actions (s, d)).1
        (Action.performAll actions (s, d)).2
      exact ⟨hlast.options.trans ih.options, hlast.settings.trans ih.settings,
        hlast.table.trans ih.table, hlast.strict.trans ih.strict⟩

section Fresh

variable {s : Session} {d : Directory} {actions : List Action}

/-- The source file of a session is the last that an action has named. -/
theorem last_file {f : Path} (hfresh : s.source = none)
    (h : (Action.performAll actions (s, d)).1.source = some f) :
    ∃ n, IsLast (fileAt? actions) n f := by
  have hstep : ∀ (state : Session × Directory) (action : Action),
      (action.perform state).1.source = action.file?.or state.1.source := by
    rintro ⟨s, d⟩ action
    obtain ⟨reading, heq⟩ := action.perform_eq s d
    rw [heq]
  exact last_of_foldl (fun state : Session × Directory => state.1.source) hstep hfresh actions h

/-- The result of a session is that of the last action that has one. -/
theorem last_result {a : Assembly} (hfresh : s.result = none)
    (h : (Action.performAll actions (s, d)).1.result = some a) :
    ∃ n, IsLast (s.resultAt? d actions) n a := by
  have hstep : ∀ (state : Session × Directory) (action : Action),
      (action.perform state).1.result = (state.1.kept? state.2 action).or state.1.result := by
    rintro ⟨s, d⟩ action
    obtain ⟨reading, heq⟩ := action.perform_eq s d
    rw [heq]
  obtain ⟨n, hn⟩ := last_of_foldl (fun state : Session × Directory => state.1.result) hstep hfresh
    actions h
  -- What is kept depends on the task of the session, and no action changes that.
  have hvalues : s.resultAt? d actions = newsAt (fun state action => action.perform state)
      (fun state action => state.1.kept? state.2 action) (s, d) actions := by
    funext n
    rw [Session.resultAt?, ← (performAll_sameTask (actions.take n) s d).kept?]
    rfl
  rw [hvalues]
  exact ⟨n, hn⟩

end Fresh

/-! ## Writing -/

/-- What a session writes where no path is given: its result, to the path derived from its source file. -/
theorem Session.write_eq_ok {s : Session} {d d' : Directory} {path : Path}
    (h : s.write d none = (d', .ok path)) :
    ∃ f p a, s.source = some f ∧ s.settings.outputPath? f = some p ∧ path = p.clean ∧
      s.result = some a ∧ d.writeBytes path (encodeUtf8 a.output) = .ok d' := by
  rw [write, output] at h
  cases hresult : s.result with
  | none =>
      rw [hresult] at h
      cases h
  | some a =>
      cases hsource : s.source with
      | none =>
          rw [hresult, hsource] at h
          cases h
      | some f =>
          cases hpath : s.settings.outputPath f with
          | error fault =>
              simp only [hresult, hsource, hpath] at h
              cases h
          | ok p =>
              simp only [hresult, hsource, hpath] at h
              cases hwrite : d.writeBytes p.clean (encodeUtf8 a.output) with
              | error fault =>
                  rw [hwrite] at h
                  cases h
              | ok d'' =>
                  rw [hwrite] at h
                  cases h
                  exact ⟨f, p, a, rfl, by rw [Settings.outputPath?, hpath]; rfl, rfl, rfl, hwrite⟩

/-- The result of assembling a file is that of its text. -/
theorem Session.kept?_assembleFile {s : Session} {d : Directory} {f : Path} {a : Assembly}
    (h : s.kept? d (.assembleFile f) = some a) :
    ∃ bytes text, d.readBytes f = .ok bytes ∧ textOf bytes = .ok text ∧
      ((Reading.of text).assemble s.table s.settings.advisories s.options).result = .ok a := by
  have hok : ∀ {ε α : Type} {x : Except ε α} {a : α}, x.toOption = some a → x = .ok a := by
    intro ε α x a hx
    cases x <;> cases hx
    rfl
  obtain ⟨text, htext, hresult⟩ := Option.bind_eq_some_iff.1 h
  obtain ⟨bytes, hbytes, htext⟩ := Option.bind_eq_some_iff.1 htext
  rw [resultOf?] at hresult
  split at hresult
  · cases hresult
  · exact ⟨bytes, text, hok hbytes, hok htext, hok hresult⟩

/-- Whenever a session writes without being given a path, it writes to the path derived from the last
file that it was asked to assemble.  What it writes is the result of the last action that has one, and
that is the assembly of the text of the file if it is the same action. -/
theorem written_is_last_result {s : Session} {d d' : Directory} {actions : List Action} {path : Path}
    (hresult : s.result = none) (hsource : s.source = none)
    (h : (Action.performAll actions (s, d)).1.write (Action.performAll actions (s, d)).2 none =
      (d', .ok path)) :
    ∃ k f p n a, IsLast (fileAt? actions) k f ∧ s.settings.outputPath? f = some p ∧
      path = p.clean ∧ IsLast (s.resultAt? d actions) n a ∧
      d'.readBytes path = .ok (encodeUtf8 a.output) ∧
      (n = k → ∃ bytes text,
        (Action.performAll (actions.take k) (s, d)).2.readBytes f = .ok bytes ∧
        Session.textOf bytes = .ok text ∧
        ((Reading.of text).assemble s.table s.settings.advisories s.options).result = .ok a) := by
  obtain ⟨f, p, a, hfile, hpath, rfl, hkept, hwrite⟩ := Session.write_eq_ok h
  obtain ⟨k, hk⟩ := last_file hsource hfile
  obtain ⟨n, hn⟩ := last_result hresult hkept
  rw [(performAll_sameTask actions s d).settings] at hpath
  refine ⟨k, f, p, n, a, hk, hpath, rfl, hn, Directory.readBytes_of_writeBytes hwrite, ?_⟩
  rintro rfl
  obtain ⟨action, haction, hnamed⟩ := Option.bind_eq_some_iff.1 hk.1
  obtain ⟨action', haction', hresultAt⟩ := Option.bind_eq_some_iff.1 hn.1
  cases haction.symm.trans haction'
  cases action with
  | assembleFile path =>
      cases hnamed
      exact Session.kept?_assembleFile hresultAt
  | read source => cases hnamed
  | assemble source => cases hnamed
  | write path => cases hnamed

/-- A directory with one source file. -/
def oneFile : Directory := ⟨[(["a.ic10"], .file (encodeUtf8 "yield"))]⟩

/-- A strict session that has not been asked for anything. -/
def strictSession : Session := { table := .standard, strict := true }

/-- A text, a file that is missing, a file, and a text that is refused. -/
def mixedActions : List Action :=
  [.assemble "hcf", .assembleFile ⟨0, ["b.ic10"]⟩, .assembleFile ⟨0, ["a.ic10"]⟩, .assemble "define"]

theorem written_is_last_result_mixed :
    ∃ d' k f n a, (Action.performAll mixedActions (strictSession, oneFile)).1.write
        (Action.performAll mixedActions (strictSession, oneFile)).2 none =
          (d', .ok ⟨0, ["a.min.ic10"]⟩) ∧
      IsLast (fileAt? mixedActions) k f ∧
      IsLast (strictSession.resultAt? oneFile mixedActions) n a ∧
      d'.readBytes ⟨0, ["a.min.ic10"]⟩ = .ok (encodeUtf8 a.output) := by
  have hpath : ((Action.performAll mixedActions (strictSession, oneFile)).1.write
      (Action.performAll mixedActions (strictSession, oneFile)).2 none).2 =
        .ok ⟨0, ["a.min.ic10"]⟩ := by
    decide +kernel
  obtain ⟨d', hwrite⟩ : ∃ d', (Action.performAll mixedActions (strictSession, oneFile)).1.write
      (Action.performAll mixedActions (strictSession, oneFile)).2 none =
        (d', .ok ⟨0, ["a.min.ic10"]⟩) := ⟨_, Prod.ext rfl hpath⟩
  obtain ⟨k, f, p, n, a, hk, -, -, hn, hread, -⟩ := written_is_last_result rfl rfl hwrite
  exact ⟨d', k, f, n, a, hwrite, hk, hn, hread⟩

/-- A file and then a text. -/
def fileThenText : List Action := [.assembleFile ⟨0, ["a.ic10"]⟩, .assemble "hcf"]

/-- Behind `fileThenText` the output of the text is written beside the file, whose own output is
another. -/
theorem other_text_written :
    IsLast (fileAt? fileThenText) 0 ⟨0, ["a.ic10"]⟩ ∧
      (strictSession.kept? oneFile (.assembleFile ⟨0, ["a.ic10"]⟩)).map Assembly.output =
        some "yield" ∧
      ((Action.performAll fileThenText (strictSession, oneFile)).1.write oneFile none).2 =
        .ok ⟨0, ["a.min.ic10"]⟩ ∧
      ((Action.performAll fileThenText (strictSession, oneFile)).1.write oneFile none).1.readBytes
        ⟨0, ["a.min.ic10"]⟩ = .ok (encodeUtf8 "hcf") := by
  refine ⟨⟨rfl, fun m hm => ?_⟩, by decide +kernel⟩
  match m with
  | 1 => rfl
  | m + 2 => rfl

end ChipAsm
