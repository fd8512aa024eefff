import ChipAsm.Proofs.Scoping
import ChipAsm.Proofs.SourceText

/-!
# Sections put behind a source

A source may be continued by more sections.  They do not disturb what is there: the lines of output
and the placed sections of the source come first, as if nothing followed (`appending_undisturbed`).

A reader takes nothing back.  When a line opens a section, the sections that it has closed are those
of the source before that line, and they stay in front of all others (`extends_of_opening`).  A run
goes through the sections in order, and an instruction sees none that lie behind its own.  Of those it
is told only which names they define, and that does not change its line (`assembleSections_eases`).
-/

namespace ChipAsm

open ChipAsm.Text ChipAsm.Token

/-! ## Reading on -/

/-- The line starts with the word that opens a section. -/
def opensSection (text : List Char) : Bool :=
  (Line.ofText? text).any fun line => line.head = .directive "section"

/-- The first line that is not idle, if there is one, starts with the word that opens a section. -/
def startsWithSection (source : String) : Bool :=
  ((linesOf source).find? fun text => !isIdle text).all opensSection

/-- The second reader has read on from the first. -/
structure Reader.Grows (r r' : Reader) : Prop where
  closed : r.closed <+: r'.closed
  symbolNames : r.symbolNames <+: r'.symbolNames

/-- The second reading has the sections of the first in front of others. -/
structure Reading.Extends (reading reading' : Reading) : Prop where
  sections : reading.program.sections <+: reading'.program.sections
  symbolNames : reading.program.symbolNames ⊆ reading'.program.symbolNames
  valid : reading'.valid = true → reading.valid = true

namespace Reader

theorem Grows.trans {r r' r'' : Reader} (h : r.Grows r') (h' : r'.Grows r'') : r.Grows r'' where
  closed := h.closed.trans h'.closed
  symbolNames := h.symbolNames.trans h'.symbolNames

theorem closed_prefix_close_sections (r : Reader) : r.closed <+: r.close.sections := by
  rw [close_eq]
  exact List.prefix_append _ _

/-- A line that opens a section puts the open one behind those that are closed. -/
theorem step_of_opening {r : Reader} {text : List Char} {line : Line} {name : String}
    {required : List String} (hline : Line.ofText? text = some line)
    (hopening : line.statement.opening? = some (name, required)) :
    (r.step text).closed = r.close.sections ∧ (r.step text).symbolNames = r.symbolNames := by
  obtain ⟨d, -, htake⟩ := take_opening (r := r) hopening
  rw [step_of_some hline, htake]
  exact ⟨rfl, r.close_symbolNames⟩

theorem step_grows (r : Reader) (text : List Char) : r.Grows (r.step text) := by
  cases hline : Line.ofText? text with
  | none =>
      obtain ⟨d, -, hstep⟩ := step_of_none (r := r) hline
      rw [hstep]
      exact ⟨List.prefix_refl _, List.prefix_refl _⟩
  | some line =>
      cases hopening : line.statement.opening? with
      | none =>
          rw [step_of_some hline, (take_absorbs hopening).eq]
          exact ⟨List.prefix_refl _, List.prefix_append _ _⟩
      | some opened =>
          obtain ⟨hclosed, hnames⟩ := step_of_opening (r := r) hline hopening
          exact ⟨hclosed ▸ r.closed_prefix_close_sections, hnames ▸ List.prefix_refl _⟩

theorem foldl_grows (texts : List (List Char)) : ∀ r : Reader, r.Grows (texts.foldl step r) := by
  induction texts with
  | nil => exact fun r => ⟨List.prefix_refl _, List.prefix_refl _⟩
  | cons text texts ih => exact fun r => (r.step_grows text).trans (ih (r.step text))

/-- A line with the word that opens a section opens one, unless it is an error. -/
theorem opening_of_opensSection {r : Reader} {text : List Char} (h : opensSection text = true)
    (hvalid : (r.step text).diagnostics.errors = []) :
    ∃ line name required,
      Line.ofText? text = some line ∧ line.statement.opening? = some (name, required) := by
  obtain ⟨line, hline, hhead⟩ := (Option.any_eq_true ..).1 h
  have hhead : line.head = .directive "section" := of_decide_eq_true hhead
  rw [step_of_some hline] at hvalid
  cases hoperands : line.operands with
  | nil =>
      have htake : r.take line = r.fail .sectionName := by
        simp [take, hhead, hoperands, beginSection]
      simp [htake, fail, Diagnostics.fail] at hvalid
  | cons name words =>
      refine ⟨line, name, requiredIn words, hline, ?_⟩
      simp [Line.statement, hhead, hoperands, Statement.ofDirective, Statement.opening?]

/-- Reading on over lines that start with a section leaves the sections that are there. -/
theorem extends_of_opening {texts : List (List Char)} (hlines : ∀ text ∈ texts, '\n' ∉ text)
    (hfirst : (texts.find? fun text => !isIdle text).all opensSection = true) :
    ∀ {r : Reader}, (texts.foldl step r).diagnostics.errors = [] →
      r.close.reading.Extends (texts.foldl step r).close.reading := by
  induction texts with
  | nil => exact fun _ => ⟨List.prefix_refl _, List.Subset.refl _, id⟩
  | cons text texts ih =>
      intro r hvalid
      rw [List.foldl_cons] at hvalid ⊢
      have hgrows := foldl_grows texts (r.step text)
      cases hidle : isIdle text with
      | true =>
          rw [List.find?_cons_of_neg (by simp [hidle])] at hfirst
          have hstep : r.step text = r.atLine (r.line + 1) :=
            step_of_isIdle hidle (hlines text (List.mem_cons_self ..))
          rw [hstep] at hvalid ⊢
          rw [← reading_close_atLine r (r.line + 1)]
          exact ih (fun text hmem => hlines text (List.mem_cons_of_mem _ hmem)) hfirst hvalid
      | false =>
          rw [List.find?_cons_of_pos (by simp [hidle])] at hfirst
          have herrors : (r.step text).diagnostics.errors = [] :=
            List.prefix_nil.1 (hvalid ▸ foldl_errors texts _)
          obtain ⟨line, name, required, hline, hopening⟩ := opening_of_opensSection hfirst herrors
          obtain ⟨hclosed, hnames⟩ := step_of_opening (r := r) hline hopening
          constructor
          · rw [reading, ← hclosed]
            exact hgrows.closed.trans (closed_prefix_close_sections _)
          · simp only [reading, close_symbolNames]
            rw [← hnames]
            exact hgrows.symbolNames.subset
          · intro _
            simp only [Reading.valid, reading, close_diagnostics, Diagnostics.valid,
              List.isEmpty_iff]
            exact List.prefix_nil.1 (herrors ▸ r.step_errors text)

end Reader

theorem Reading.extends_of_startsWithSection {source more : String}
    (hvalid : (Reading.of (source ++ "\n" ++ more)).valid = true)
    (hfirst : startsWithSection more = true) :
    (Reading.of source).Extends (Reading.of (source ++ "\n" ++ more)) := by
  have herrors := errors_of_valid hvalid
  rw [linesOf_append, List.foldl_append] at herrors
  rw [Reading.of, Reading.of, Reader.read, Reader.read, linesOf_append, List.foldl_append]
  exact Reader.extends_of_opening (fun _ => not_mem_of_mem_splitAtSep) hfirst herrors

/-! ## Running on -/

theorem layoutFrom_append (front back : List Section) :
    ∀ next : Nat, layoutFrom next (front ++ back) =
      layoutFrom next front ++ layoutFrom (next + totalSize front) back := by
  induction front with
  | nil => exact fun _ => rfl
  | cons s front ih =>
      intro next
      rw [List.cons_append, layoutFrom, layoutFrom, ih, List.cons_append, totalSize, Nat.add_assoc]

/-- The outcomes of sections start with those of the sections in front. -/
theorem assembleSections_front {table : Table} {options : Options} {names : List String}
    {chosen back : List Section} :
    ∀ {front before : List Section} {outcomes : List Outcome},
      assembleSections table options names chosen before (front ++ back) = .ok outcomes →
        ∃ first others, assembleSections table options names chosen before front = .ok first ∧
          outcomes = first ++ others
  | [], before, outcomes, _ => ⟨[], outcomes, rfl, rfl⟩
  | s :: front, before, outcomes, h => by
      obtain ⟨own, rest, hown, hrest, rfl⟩ := assembleSections_cons h
      obtain ⟨first, others, hfirst, rfl⟩ := assembleSections_front hrest
      refine ⟨own ++ first, others, ?_, (List.append_assoc ..).symm⟩
      rw [assembleSections]
      simp only [hown, hfirst, Except.map]

theorem emitted_append (first others : List Outcome) :
    emitted (first ++ others) = emitted first ++ emitted others :=
  List.filterMap_append ..

/-- The sections of a reading that is extended are placed as if nothing followed. -/
theorem Reading.Extends.chosen {reading reading' : Reading} (h : reading.Extends reading') :
    ∃ back, reading'.chosen [] = reading.chosen [] ++ back := by
  obtain ⟨more, hmore⟩ := h.sections
  rw [Reading.chosen, Reading.chosen, choose_nil, choose_nil, ← hmore, layoutFrom_append]
  exact ⟨_, rfl⟩

/-- Sections put behind a source do not disturb what the source gives. -/
theorem appending_undisturbed {source more : String} {table : Table} {advisories : List Advisory}
    {options : Options} {whole : Assembly}
    (hvalid : (Reading.of (source ++ "\n" ++ more)).valid = true)
    (hfirst : startsWithSection more = true) (hsections : options.sections = [])
    (hrun : ((Reading.of (source ++ "\n" ++ more)).assemble table advisories options).result =
      .ok whole) :
    ∃ a, ((Reading.of source).assemble table advisories options).result = .ok a ∧
      a.lines <+: whole.lines ∧ a.placements <+: whole.placements := by
  have hextends := Reading.extends_of_startsWithSection hvalid hfirst
  obtain ⟨outcomes, houtcomes, rfl⟩ := Reading.assemble_result hvalid hrun
  obtain ⟨back, hback⟩ := hextends.chosen
  rw [Reading.outcomes, hsections, hback] at houtcomes
  obtain ⟨first, others, hfront, rfl⟩ := assembleSections_front houtcomes
  -- The source itself is run with fewer names and fewer sections to come.
  obtain ⟨own, hown, heases⟩ : ∃ own,
      assembleSections table options (Reading.of source).program.symbolNames
          ((Reading.of source).chosen []) [] ((Reading.of source).chosen []) = .ok own ∧
        List.Forall₂ Outcome.Eases first own :=
    (assembleSections_eases hextends.symbolNames _ []).exists_ok hfront
  refine ⟨.ofOutcomes advisories (Reading.of source) ((Reading.of source).chosen []) own, ?_, ?_, ?_⟩
  · rw [Reading.assemble_result_eq, if_pos (hextends.valid hvalid), Reading.outcomes, hsections,
      hown]
  · simp only [Assembly.ofOutcomes, emitted_of_eases heases, emitted_append, List.map_append]
    exact List.prefix_append _ _
  · simp only [Assembly.ofOutcomes, Assembly.placements, hsections, hback, List.map_append]
    exact List.prefix_append _ _

/-- A use of a name that is not defined yet. -/
def earlyUse : String := "move r0 later"

/-- A section that defines the name. -/
def lateSection : String := "# more\nsection b\ndefine later 3\nmove r1 later"

/-- The result of both together. -/
def earlyUseWhole : Assembly where
  lines := ["move r0 later", "move r1 3"]
  diagnostics := ⟨[], [⟨.useBeforeDefine "later", some 0⟩, ⟨.unresolved "later", some 0⟩]⟩
  sections :=
    [⟨"(default)", 0, [], [], [], [⟨"move", ["r0", "later"], 0, 0, none⟩], 0⟩,
     ⟨"b", 1, [], [], [.constant 1 "later" "3"], [⟨"move", ["r1", "later"], 4, 0, none⟩], 1⟩]

theorem appending_undisturbed_earlyUse :
    (Reading.of (earlyUse ++ "\n" ++ lateSection)).valid = true ∧
      startsWithSection lateSection = true ∧
      ((Reading.of (earlyUse ++ "\n" ++ lateSection)).assemble .standard [] {}).result =
        .ok earlyUseWhole ∧
      ∃ a, ((Reading.of earlyUse).assemble .standard [] {}).result = .ok a ∧
        a.lines <+: earlyUseWhole.lines ∧ a.placements <+: earlyUseWhole.placements := by
  have hvalid : (Reading.of (earlyUse ++ "\n" ++ lateSection)).valid = true := by decide +kernel
  have hfirst : startsWithSection lateSection = true := by decide +kernel
  have hrun : ((Reading.of (earlyUse ++ "\n" ++ lateSection)).assemble .standard [] {}).result =
      .ok earlyUseWhole := by
    decide +kernel
  exact ⟨hvalid, hfirst, hrun, appending_undisturbed hvalid hfirst rfl hrun⟩

end ChipAsm
