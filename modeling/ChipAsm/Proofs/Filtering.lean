import ChipAsm.Proofs.Names
import ChipAsm.Proofs.Scoping
import ChipAsm.Proofs.SourceText
import ChipAsm.Proofs.Spelling

/-!
# Filtering by section

A run may be limited to some sections.  It gives what a run of a shorter source gives: the one where
the lines of the other sections are emptied and only the lines that open sections are left
(`filtering_empties`).

The shorter source is read without errors if the longer one is.  A reader of it has met fewer names of
symbols and aliases, so fewer names are defined again.  It has met the same names of sections, except
that the first section, which has no opening, may hold nothing any more.  No line can require that one:
its name is not spelled like an operand.  `Reader.Thins` is this relation between the two readers.
-/

namespace ChipAsm

open ChipAsm.Text ChipAsm.Token

/-! ## Emptied sections -/

/-- The name of the section that a line opens. -/
def opened? (text : List Char) : Option String :=
  (Line.ofText? text).bind fun line => line.statement.opening?.map Prod.fst

/-- Lines where those of a section are emptied if its name fails the test.  Lines that open sections
stay.  The first lines are those of a section that passes if `keep` is true. -/
def emptied (test : String → Bool) : Bool → List (List Char) → List (List Char)
  | _, [] => []
  | keep, text :: texts =>
    match opened? text with
    | some name => text :: emptied test (test name) texts
    | none => (if keep then text else []) :: emptied test keep texts

/-- The run takes sections of the name. -/
def takes (source : String) (given : List String) (name : String) : Bool :=
  (wanted (Reading.of source).program.sections given).contains (lower name)

/-- The source where the lines of all sections are emptied that a run does not take. -/
def emptyOthers (source : String) (given : List String) : String :=
  let test := takes source given
  joinLines ((emptied test (test Section.defaultName) (linesOf source)).map String.ofList)

section Emptied

variable {test : String → Bool}

theorem emptied_ne_nil {keep : Bool} {texts : List (List Char)} (h : texts ≠ []) :
    emptied test keep texts ≠ [] := by
  cases texts with
  | nil => exact absurd rfl h
  | cons text texts =>
      rw [emptied]
      split <;> exact List.cons_ne_nil _ _

theorem mem_emptied {texts : List (List Char)} :
    ∀ {keep : Bool} {text : List Char}, text ∈ emptied test keep texts → text ∈ texts ∨ text = [] := by
  induction texts with
  | nil =>
      intro keep text htext
      cases htext
  | cons first texts ih =>
      intro keep text htext
      rw [emptied] at htext
      split at htext
      · rcases List.mem_cons.1 htext with rfl | htext
        · exact .inl (List.mem_cons_self ..)
        · exact (ih htext).imp_left (List.mem_cons_of_mem _)
      · rcases List.mem_cons.1 htext with rfl | htext
        · cases keep with
          | true => exact .inl (List.mem_cons_self ..)
          | false => exact .inr rfl
        · exact (ih htext).imp_left (List.mem_cons_of_mem _)

theorem linesOf_emptyOthers (source : String) (given : List String) :
    linesOf (emptyOthers source given) =
      emptied (takes source given) (takes source given Section.defaultName) (linesOf source) := by
  rw [emptyOthers, linesOf_joinLines]
  · simp [Function.comp_def]
  · exact fun hnil =>
      emptied_ne_nil (splitAtSep_ne_nil '\n' source.toList) (List.map_eq_nil_iff.1 hnil)
  · intro line hline
    obtain ⟨text, htext, rfl⟩ := List.mem_map.1 hline
    rw [String.toList_ofList]
    rcases mem_emptied htext with htext | rfl
    · exact not_mem_of_mem_splitAtSep htext
    · exact List.not_mem_nil

/-! ## What the emptied source says -/

/-- The body without its lines if its name fails the test. -/
def Body.only (test : String → Bool) (b : Body) : Body :=
  if test b.name then b else { b with lines := [] }

theorem Body.only_ordinal (b : Body) : (b.only test).ordinal = b.ordinal := by
  unfold only
  split <;> rfl

theorem Body.only_push (b : Body) (l : SourceLine) :
    (b.push l).only test = if test b.name then (b.only test).push l else b.only test := by
  unfold only push
  cases test b.name <;> simp

theorem opened?_of_none {text : List Char} (h : Line.ofText? text = none) : opened? text = none := by
  rw [opened?, h]
  rfl

theorem opened?_of_some {text : List Char} {line : Line} (h : Line.ofText? text = some line) :
    opened? text = line.statement.opening?.map Prod.fst := by
  rw [opened?, h]
  rfl

/-- The bodies of the emptied lines are the emptied bodies. -/
theorem bodiesFrom_emptied (texts : List (List Char)) :
    ∀ (b : Body) (next : Nat),
      bodiesFrom (b.only test) (numberedFrom next (emptied test (test b.name) texts)) =
        (bodiesFrom b (numberedFrom next texts)).map (Body.only test) := by
  have hempty : Line.ofText? [] = none := rfl
  induction texts with
  | nil => exact fun _ _ => rfl
  | cons text texts ih =>
      intro b next
      cases hline : Line.ofText? text with
      | none =>
          have hkept : Line.ofText? (if test b.name then text else []) = none := by
            split
            · exact hline
            · exact hempty
          simp only [emptied, opened?_of_none hline, numberedFrom, hline, hkept, ih]
      | some line =>
          cases hopening : line.statement.opening? with
          | none =>
              have hname := ih (b.push ⟨next, line⟩) (next + 1)
              rw [Body.only_push, show (b.push ⟨next, line⟩).name = b.name from rfl] at hname
              simp only [emptied, opened?_of_some hline, hopening, numberedFrom, hline, bodiesFrom,
                ← hname]
              cases htest : test b.name with
              | true => simp [hline, numberedFrom, bodiesFrom, hopening]
              | false => simp [hempty, numberedFrom]
          | some opened =>
              obtain ⟨name, required⟩ := opened
              have hrest := ih { name, ordinal := b.ordinal + 1, required } (next + 1)
              have hopened : Body.only test { name, ordinal := b.ordinal + 1, required } =
                  { name, ordinal := b.ordinal + 1, required } := by
                unfold Body.only
                split <;> rfl
              rw [hopened] at hrest
              simp only [emptied, opened?_of_some hline, hopening, numberedFrom, hline, bodiesFrom,
                List.map_cons, Option.map_some, Body.only_ordinal, hrest]

end Emptied

theorem bodies_emptyOthers (source : String) (given : List String) :
    bodies (emptyOthers source given) =
      (bodies source).map (Body.only (takes source given)) := by
  have hfirst : Body.only (takes source given) {} = {} := by
    unfold Body.only
    split <;> rfl
  have hbodies := @bodiesFrom_emptied (takes source given) (linesOf source) {} 0
  rw [hfirst] at hbodies
  rw [bodies, sourceLines, linesOf_emptyOthers]
  exact hbodies

theorem filter_only {test : String → Bool} {p : Section → Bool}
    (hp : ∀ b : Body, p b.toSection = test b.name) (bs : List Body) :
    ((bs.map (Body.only test)).map Body.toSection).filter Section.holds =
      ((bs.map Body.toSection).filter Section.holds).filter p := by
  rw [List.filter_filter]
  induction bs with
  | nil => rfl
  | cons b bs ih =>
      have hfirst : (b.only test).toSection.holds = (p b.toSection && b.toSection.holds) := by
        rw [hp, Body.only]
        cases test b.name <;> rfl
      simp only [List.map_cons, List.filter_cons, hfirst, ih]
      cases hpassed : p b.toSection with
      | false => simp
      | true => rw [Body.only, ← hp, hpassed, if_pos rfl]

/-- The sections of the emptied source are those that the run takes. -/
theorem sections_emptyOthers {source : String} {given : List String}
    (hvalid : (Reading.of source).valid = true)
    (hvalid' : (Reading.of (emptyOthers source given)).valid = true) (hgiven : given ≠ []) :
    (Reading.of (emptyOthers source given)).program.sections =
      choose (Reading.of source).program.sections given := by
  have hchosen : ∀ b : Body,
      isChosen given (wanted (Reading.of source).program.sections given) b.toSection =
        takes source given b.name := by
    intro b
    rw [isChosen, List.isEmpty_eq_false_iff.2 hgiven]
    rfl
  calc (Reading.of (emptyOthers source given)).program.sections
      = (((bodies source).map (Body.only (takes source given))).map Body.toSection).filter
          Section.holds := by
        rw [sections_eq_of_valid hvalid', bodies_emptyOthers]
    _ = (((bodies source).map Body.toSection).filter Section.holds).filter
          (isChosen given (wanted (Reading.of source).program.sections given)) :=
        filter_only hchosen _
    _ = choose (Reading.of source).program.sections given := by
        rw [← sections_eq_of_valid hvalid]
        rfl

theorem symbolNames_emptyOthers {source : String} {given : List String}
    (hvalid : (Reading.of source).valid = true)
    (hvalid' : (Reading.of (emptyOthers source given)).valid = true) (hgiven : given ≠ []) :
    (Reading.of (emptyOthers source given)).program.symbolNames ⊆
      (Reading.of source).program.symbolNames := by
  rw [symbolNames_eq, symbolNames_eq, sections_emptyOthers hvalid hvalid' hgiven]
  intro name hname
  obtain ⟨s, hs, hname⟩ := List.mem_flatMap.1 hname
  exact List.mem_flatMap.2 ⟨s, List.mem_of_mem_filter hs, hname⟩

/-! ## Reading the emptied source -/

/-- No operand has the name of the section that a source starts in, in any case. -/
theorem lower_ne_defaultName {token : String} (h : Line.IsToken token.toList) :
    lower token ≠ lower Section.defaultName := by
  intro heq
  have hchars : lowerChars token.toList = lowerChars Section.defaultName.toList :=
    String.ofList_injective heq
  apply Line.head?_lowerChars_ne_paren h
  rw [hchars]
  decide +kernel

namespace Reader

/-- The second reader has read the lines of the first, some of them emptied. -/
structure Thins (r r' : Reader) : Prop where
  symbolNames : r'.symbolNames ⊆ r.symbolNames
  aliasNames : r'.aliasNames ⊆ r.aliasNames
  current : r'.current.name = r.current.name
  declared : r'.declared = r.declared
  undeclared : r.declared = false → r.current.name = Section.defaultName
  sectionNames : ∀ name ∈ r.sectionNames, name = Section.defaultName ∨ name ∈ r'.sectionNames
  errors : r.diagnostics.errors = [] → r'.diagnostics.errors = []

theorem mem_take_symbolNames {r : Reader} {line : Line} {name : String} :
    name ∈ (r.take line).symbolNames ↔
      name ∈ r.symbolNames ∨ line.statement.defined? = some name := by
  cases hopening : line.statement.opening? with
  | some opened =>
      obtain ⟨d, -, htake⟩ := take_opening (r := r) hopening
      have hdefined : line.statement.defined? = none := by
        generalize line.statement = st at hopening
        cases st <;> first | rfl | cases hopening
      simp [htake, start, close_symbolNames, hdefined]
  | none =>
      rw [(take_absorbs hopening).eq, Statement.defined?_eq _ r.current.ordinal r.position]
      simp only [absorb, defined]
      cases line.statement.symbol? r.current.ordinal r.position with
      | none => simp [fresh]
      | some d =>
          by_cases htaken : d.name ∈ r.symbolNames
          · simp only [Option.toList_some, fresh, htaken, ↓reduceIte, List.map_nil, List.append_nil,
              Option.map_some, Option.some.injEq]
            exact ⟨.inl, fun h => h.elim id fun heq => heq ▸ htaken⟩
          · simp [fresh, htaken, eq_comm]

theorem mem_take_aliasNames {r : Reader} {line : Line} {name : String} :
    name ∈ (r.take line).aliasNames ↔
      name ∈ r.aliasNames ∨ ∃ target, line.statement.alias? = some (name, target) := by
  rw [take_aliasNames]
  cases line.statement.alias? with
  | none => simp
  | some pair => simp [mem_addName, Prod.ext_iff, eq_comm]

theorem missing?_eq_none_iff {r : Reader} {required : List String} :
    r.missing? required = none ↔
      ∀ name ∈ required, lower name ∈ r.sectionNames.map lower := by
  simp [missing?]

/-- Closing keeps what two readers know of the names of sections. -/
theorem Thins.close_sectionNames {r r' : Reader} (h : r.Thins r') :
    ∀ name ∈ r.close.sectionNames, name = Section.defaultName ∨ name ∈ r'.close.sectionNames := by
  intro name hname
  have hbefore : name ∈ r.sectionNames →
      name = Section.defaultName ∨ name ∈ r'.close.sectionNames := fun hmem =>
    (h.sectionNames name hmem).imp_right fun hmem => subset_close_sectionNames r' hmem
  have hcurrent : name ∈ r.sectionNames ∨ name = r.current.name := by
    rcases r.close_sectionNames with hnames | ⟨-, hnames⟩
    · rw [hnames] at hname
      exact mem_addName.1 hname
    · exact .inl (hnames ▸ hname)
  rcases hcurrent with hmem | rfl
  · exact hbefore hmem
  · cases hdeclared : r.declared with
    | false => exact .inl (h.undeclared hdeclared)
    | true =>
        -- A declared section is recorded even if it holds nothing.
        refine .inr ?_
        have hnames : r'.close.sectionNames = addName r'.current.name r'.sectionNames := by
          rw [close, h.declared, hdeclared]
          split <;> rfl
        rw [hnames, mem_addName]
        exact .inr h.current.symm

/-- Names that the first reader does not miss are not missed by the second. -/
theorem Thins.requirements {r r' : Reader} (h : r.Thins r') {words : List String}
    (htokens : ∀ word ∈ words, Line.IsToken word.toList)
    (hnone : (r.close.requirements words).2 = none) : (r'.close.requirements words).2 = none := by
  unfold Reader.requirements at hnone ⊢
  split
  · rfl
  · cases hnone
  · rename_i word required hne
    simp only at hnone ⊢
    split at hnone
    · rename_i hword
      rw [if_pos hword]
      simp only [Option.map_eq_none_iff, missing?_eq_none_iff] at hnone ⊢
      intro name hname
      obtain ⟨known, hknown, hlower⟩ := List.mem_map.1 (hnone name hname)
      rcases h.close_sectionNames known hknown with rfl | hmem
      · exact absurd hlower.symm
          (lower_ne_defaultName (htokens name (List.mem_cons_of_mem _ hname)))
      · exact List.mem_map.2 ⟨known, hmem, hlower⟩
    · cases hnone

/-- A line that is right for the first reader is right for the second. -/
theorem Thins.fault? {r r' : Reader} (h : r.Thins r') {line : Line}
    (htokens : ∀ token ∈ line.operands, Line.IsToken token.toList) (hnone : r.fault? line = none) :
    r'.fault? line = none := by
  have hsymbol : ∀ name : String,
      (if name ∈ r.symbolNames then some (Problem.duplicateSymbol name) else none) = none →
        (if name ∈ r'.symbolNames then some (Problem.duplicateSymbol name) else none) = none := by
    intro name hname
    have hfree : name ∉ r.symbolNames := by simpa using hname
    exact if_neg fun hmem => hfree (h.symbolNames hmem)
  obtain ⟨head, operands, comment⟩ := line
  cases head with
  | code label opcode =>
      cases label with
      | none => rfl
      | some name => exact hsymbol name hnone
  | directive word =>
      simp only [Reader.fault?] at hnone ⊢
      split at hnone
      · rename_i hword
        rw [if_pos hword]
        split at hnone
        · exact hsymbol _ hnone
        · cases hnone
      · rename_i hword
        rw [if_neg hword]
        split at hnone
        · rename_i hword'
          rw [if_pos hword']
          split at hnone
          · rename_i name target
            have hfree : ¬(name ∈ r.aliasNames ∧ isDevice target = false) := by simpa using hnone
            exact if_neg fun hmem => hfree ⟨h.aliasNames hmem.1, hmem.2⟩
          · cases hnone
        · rename_i hword'
          rw [if_neg hword']
          split at hnone
          · rename_i hword''
            rw [if_pos hword'']
            split at hnone
            · cases hnone
            · exact h.requirements (fun word hmem => htokens word (List.mem_cons_of_mem _ hmem)) hnone
          · rename_i hword''
            rw [if_neg hword'']

theorem Thins.textFault? {r r' : Reader} (h : r.Thins r') {text : List Char}
    (hnone : r.textFault? text = none) : r'.textFault? text = none := by
  rw [Reader.textFault?] at hnone ⊢
  cases hcs : stripChars text with
  | nil => rfl
  | cons c cs =>
      rw [hcs] at hnone
      simp only at hnone ⊢
      cases hline : Line.ofChars? (c :: cs) with
      | none =>
          rw [hline] at hnone
          cases hnone
      | some line =>
          rw [hline] at hnone
          exact h.fault? (Line.isToken_of_mem_operands hline) hnone

/-- Both readers read a line. -/
theorem Thins.step {r r' : Reader} (h : r.Thins r') {text : List Char}
    (hvalid : (r.step text).diagnostics.errors = []) : (r.step text).Thins (r'.step text) := by
  have hright : r.diagnostics.errors = [] ∧ r.textFault? text = none := by
    rwa [step_fault, errorsWith_eq_nil_iff] at hvalid
  have herrors : (r'.step text).diagnostics.errors = [] := by
    rw [step_fault, errorsWith_eq_nil_iff]
    exact ⟨h.errors hright.1, h.textFault? hright.2⟩
  cases hline : Line.ofText? text with
  | none =>
      obtain ⟨d, -, hstep⟩ := step_of_none (r := r) hline
      obtain ⟨d', -, hstep'⟩ := step_of_none (r := r') hline
      rw [hstep'] at herrors
      rw [hstep, hstep']
      exact ⟨h.symbolNames, h.aliasNames, h.current, h.declared, h.undeclared, h.sectionNames,
        fun _ => herrors⟩
  | some line =>
      have hsymbols : (r'.take line).symbolNames ⊆ (r.take line).symbolNames := by
        intro name hname
        rw [mem_take_symbolNames] at hname ⊢
        exact hname.imp_left fun hmem => h.symbolNames hmem
      have haliases : (r'.take line).aliasNames ⊆ (r.take line).aliasNames := by
        intro name hname
        rw [mem_take_aliasNames] at hname ⊢
        exact hname.imp_left fun hmem => h.aliasNames hmem
      rw [step_of_some hline] at herrors
      rw [step_of_some hline, step_of_some hline]
      cases hopening : line.statement.opening? with
      | none =>
          have habsorbs := (take_absorbs (r := r) hopening).eq
          have habsorbs' := (take_absorbs (r := r') hopening).eq
          refine ⟨hsymbols, haliases, ?_, ?_, ?_, ?_, fun _ => herrors⟩
          · rw [habsorbs, habsorbs']
            exact h.current
          · rw [habsorbs, habsorbs']
            exact h.declared
          · rw [habsorbs]
            exact h.undeclared
          · rw [habsorbs, habsorbs']
            exact h.sectionNames
      | some opened =>
          obtain ⟨d, -, htake⟩ := take_opening (r := r) hopening
          obtain ⟨d', -, htake'⟩ := take_opening (r := r') hopening
          refine ⟨hsymbols, haliases, ?_, ?_, ?_, ?_, fun _ => herrors⟩
          · rw [htake, htake']
            rfl
          · rw [htake, htake']
            rfl
          · rw [htake]
            intro hdeclared
            cases hdeclared
          · rw [htake, htake']
            exact h.close_sectionNames

/-- The first reader reads a line that opens no section, the second an empty one. -/
theorem Thins.skip {r r' : Reader} (h : r.Thins r') {text : List Char}
    (hopened : opened? text = none) : (r.step text).Thins (r'.step []) := by
  have hstep' : r'.step [] = { r' with line := r'.line + 1 } := rfl
  have hbefore : (r.step text).diagnostics.errors = [] → r.diagnostics.errors = [] := by
    rw [step_fault, errorsWith_eq_nil_iff]
    exact And.left
  have herrors : (r.step text).diagnostics.errors = [] → r'.diagnostics.errors = [] := fun hvalid =>
    h.errors (hbefore hvalid)
  rw [hstep']
  cases hline : Line.ofText? text with
  | none =>
      obtain ⟨d, -, hstep⟩ := step_of_none (r := r) hline
      rw [hstep] at herrors ⊢
      exact ⟨h.symbolNames, h.aliasNames, h.current, h.declared, h.undeclared, h.sectionNames,
        herrors⟩
  | some line =>
      rw [opened?_of_some hline, Option.map_eq_none_iff] at hopened
      have habsorbs := (take_absorbs (r := r) hopened).eq
      rw [step_of_some hline] at herrors ⊢
      refine ⟨?_, ?_, ?_, ?_, ?_, ?_, herrors⟩
      · exact fun name hname => mem_take_symbolNames.2 (.inl (h.symbolNames hname))
      · exact fun name hname => mem_take_aliasNames.2 (.inl (h.aliasNames hname))
      · rw [habsorbs]
        exact h.current
      · rw [habsorbs]
        exact h.declared
      · rw [habsorbs]
        exact h.undeclared
      · rw [habsorbs]
        exact h.sectionNames

theorem Thins.foldl {test : String → Bool} (texts : List (List Char)) :
    ∀ {keep : Bool} {r r' : Reader}, r.Thins r' → (texts.foldl Reader.step r).diagnostics.errors = [] →
      (texts.foldl Reader.step r).Thins ((emptied test keep texts).foldl Reader.step r') := by
  induction texts with
  | nil => exact fun h _ => h
  | cons text texts ih =>
      intro keep r r' h hvalid
      rw [List.foldl_cons] at hvalid ⊢
      have hfirst : (r.step text).diagnostics.errors = [] :=
        List.prefix_nil.1 (hvalid ▸ foldl_errors texts (r.step text))
      rw [emptied]
      split
      · exact ih (h.step hfirst) hvalid
      · rename_i hopened
        cases keep with
        | true => exact ih (h.step hfirst) hvalid
        | false => exact ih (h.skip hopened) hvalid

end Reader

theorem valid_emptyOthers {source : String} (h : (Reading.of source).valid = true)
    (given : List String) : (Reading.of (emptyOthers source given)).valid = true := by
  have hstart : Reader.Thins {} {} := ⟨List.Subset.refl _, List.Subset.refl _, rfl, rfl,
    fun _ => rfl, fun _ hname => .inr hname, id⟩
  apply valid_of_errors
  rw [linesOf_emptyOthers]
  exact (hstart.foldl (linesOf source) (errors_of_valid h)).errors (errors_of_valid h)

/-! ## Running the emptied source -/

/-- The second result has the lines and the placed sections of the first, and is valid if the first
is. -/
structure Assembly.Eases (a a' : Assembly) : Prop where
  lines : a'.lines = a.lines
  placements : a'.placements = a.placements
  valid : a.valid = true → a'.valid = true

/-- A run that is limited to some sections gives what a run of the source gives where the lines of the
other sections are emptied. -/
theorem filtering_empties {source : String} {options : Options}
    (hvalid : (Reading.of source).valid = true) (hgiven : options.sections ≠ []) (table : Table)
    (advisories : List Advisory) :
    (Reading.of (emptyOthers source options.sections)).valid = true ∧
      Agree Assembly.Eases ((Reading.of source).assemble table advisories options).result
        ((Reading.of (emptyOthers source options.sections)).assemble table advisories
          { options with sections := [] }).result := by
  have hvalid' := valid_emptyOthers hvalid options.sections
  have hchosen : (Reading.of (emptyOthers source options.sections)).chosen [] =
      (Reading.of source).chosen options.sections := by
    rw [Reading.chosen, Reading.chosen, choose_nil, sections_emptyOthers hvalid hvalid' hgiven]
  have hnames := symbolNames_emptyOthers hvalid hvalid' hgiven
  have houtcomes : Agree (List.Forall₂ Outcome.Eases)
      ((Reading.of source).outcomes table options)
      ((Reading.of (emptyOthers source options.sections)).outcomes table
        { options with sections := [] }) := by
    rw [Reading.outcomes, Reading.outcomes, hchosen, assembleSections_sections []]
    exact assembleSections_eases hnames _ []
  refine ⟨hvalid', ?_⟩
  rw [Reading.assemble_result_eq, Reading.assemble_result_eq, if_pos hvalid, if_pos hvalid', hchosen]
  generalize (Reading.of source).outcomes table options = x at houtcomes
  generalize (Reading.of (emptyOthers source options.sections)).outcomes table
    { options with sections := [] } = x' at houtcomes
  cases houtcomes with
  | stopped => exact .stopped
  | @finished outcomes outcomes' heases =>
      refine .finished ⟨?_, ?_, ?_⟩
      · simp only [Assembly.ofOutcomes, emitted_of_eases heases]
      · simp only [Assembly.placements, Assembly.ofOutcomes]
      · simp only [Assembly.valid, Assembly.ofOutcomes, Diagnostics.valid, Diagnostics.merge,
          List.isEmpty_iff, List.append_eq_nil_iff]
        intro hnone
        refine ⟨?_, errorsOf_of_eases heases hnone.2⟩
        simpa [Reading.valid, Diagnostics.valid] using hvalid'

/-- A library, a section that needs it, and one that does not. -/
def library : String :=
  "move r0 1\nsection lib\ndefine k 4\nsection other\nk2: move r0 2\nsection main requires LIB\nmove r1 k"

theorem filtering_empties_library :
    (Reading.of library).valid = true ∧
      emptyOthers library ["Main"] =
        "\nsection lib\ndefine k 4\nsection other\n\nsection main requires LIB\nmove r1 k" ∧
      (Reading.of (emptyOthers library ["Main"])).valid = true ∧
      Agree Assembly.Eases ((Reading.of library).assemble .standard [] ⟨["Main"], false, false⟩).result
        ((Reading.of (emptyOthers library ["Main"])).assemble .standard [] {}).result := by
  have hvalid : (Reading.of library).valid = true := by decide +kernel
  exact ⟨hvalid, by decide +kernel,
    @filtering_empties library ⟨["Main"], false, false⟩ hvalid (by simp) .standard []⟩

end ChipAsm
