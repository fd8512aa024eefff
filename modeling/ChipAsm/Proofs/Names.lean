import ChipAsm.Proofs.Contents
import ChipAsm.Proofs.Ownership
import ChipAsm.Proofs.Visibility

/-!
# The names of a program

A program lists the names of its symbols and aliases, and a reading lists the names of its sections.
The lists are kept by the reader, line by line and beside the sections, and they agree with what the
sections hold, whether the source has errors or not (`names_agree`).

No two sections define a symbol of one name.  A symbol belongs to the section that holds it, and this
section has the line that defines it.  An alias may be bound in several sections.  `Reader.Named` says
what the reader knows of the aliases bound so far: their names, and that without an error only devices
are bound to a name again.
-/

namespace ChipAsm

open ChipAsm.Text ChipAsm.Token

/-! ## Lists of names -/

theorem mem_addName {name other : String} {names : List String} :
    other ∈ addName name names ↔ other ∈ names ∨ other = name := by
  unfold addName
  split
  · rename_i hname
    constructor
    · exact Or.inl
    · rintro (hother | rfl)
      · exact hother
      · exact hname
  · rw [List.mem_append, List.mem_singleton]

theorem nodup_addName {name : String} {names : List String} (h : names.Nodup) :
    (addName name names).Nodup := by
  unfold addName
  split
  · exact h
  · rename_i hname
    exact List.nodup_append'.2 ⟨h, List.nodup_singleton _, List.disjoint_singleton.2 hname⟩

/-- The names of the symbols of a section. -/
def Section.symbolNames (s : Section) : List String := s.symbols.map Symbol.name

/-- The names that are bound as aliases in a section. -/
def Section.aliasNames (s : Section) : List String := s.aliases.map Prod.fst

theorem mem_keys_bindKey {key value name : String} {bound : List (String × String)} :
    name ∈ (bindKey key value bound).map Prod.fst ↔ name ∈ bound.map Prod.fst ∨ name = key := by
  induction bound with
  | nil => simp [bindKey]
  | cons pair bound ih =>
      rw [bindKey]
      split
      · rename_i hkey
        subst hkey
        simp only [List.map_cons, List.mem_cons]
        tauto
      · simp only [List.map_cons, List.mem_cons, ih]
        tauto

theorem mem_keys_foldl {name : String} (pairs : List (String × String)) :
    ∀ {bound : List (String × String)},
      name ∈ (pairs.foldl (fun bound pair => bindKey pair.1 pair.2 bound) bound).map Prod.fst ↔
        name ∈ bound.map Prod.fst ∨ name ∈ pairs.map Prod.fst := by
  induction pairs with
  | nil => simp
  | cons pair pairs ih =>
      intro bound
      rw [List.foldl_cons, ih, mem_keys_bindKey, List.map_cons, List.mem_cons, or_assoc]

/-! ## What a line does to the names -/

/-- The bindings agree: only a device is bound to a name that is bound before. -/
def Rebinds (bound : List (String × String)) : Prop :=
  bound.Pairwise fun earlier later => earlier.1 = later.1 → isDevice later.2 = true

namespace Reader

theorem close_aliasNames (r : Reader) : r.close.aliasNames = r.aliasNames := by
  rw [close_eq]

/-- Closing a section records its name, except that of a section that holds nothing and was not
declared. -/
theorem close_sectionNames (r : Reader) :
    r.close.sectionNames = addName r.current.name r.sectionNames ∨
      r.current.holds = false ∧ r.close.sectionNames = r.sectionNames := by
  unfold close
  split
  · rename_i hempty
    split
    · exact Or.inl rfl
    · exact Or.inr ⟨by simp [Section.holds, hempty], rfl⟩
  · exact Or.inl rfl

theorem nodup_close_sectionNames {r : Reader} (h : r.sectionNames.Nodup) :
    r.close.sectionNames.Nodup := by
  rcases r.close_sectionNames with hnames | ⟨-, hnames⟩
  · rw [hnames]
    exact nodup_addName h
  · rw [hnames]
    exact h

theorem subset_close_sectionNames (r : Reader) : r.sectionNames ⊆ r.close.sectionNames := by
  intro name hname
  rcases r.close_sectionNames with hnames | ⟨-, hnames⟩
  · rw [hnames]
    exact mem_addName.2 (Or.inl hname)
  · rwa [hnames]

theorem current_mem_close_sectionNames {r : Reader} (h : r.current.holds = true) :
    r.current.name ∈ r.close.sectionNames := by
  rcases r.close_sectionNames with hnames | ⟨hempty, -⟩
  · rw [hnames]
    exact mem_addName.2 (Or.inr rfl)
  · rw [hempty] at h
    cases h

theorem noteAlias_aliasNames (r : Reader) (name target : String) :
    (r.noteAlias name target).aliasNames = addName name r.aliasNames := by
  unfold noteAlias addName
  split
  · split <;> rfl
  · rfl

theorem keepAlias_aliasNames (r : Reader) (name target : String) (comment : Option String) :
    (r.keepAlias name target comment).aliasNames = r.aliasNames := by
  unfold keepAlias
  split
  · rfl
  · split <;> rfl

theorem mark_aliasNames (r : Reader) (label : Option String) :
    (r.mark label).aliasNames = r.aliasNames := by
  cases label with
  | none => rfl
  | some name =>
      rw [mark, addSymbol_eq]
      rfl

/-- A line adds the name of the alias that it binds. -/
theorem take_aliasNames (r : Reader) (line : Line) :
    (r.take line).aliasNames =
      line.statement.alias?.toList.foldl (fun names pair => addName pair.1 names) r.aliasNames := by
  have htakes := r.take_takes line
  generalize line.statement = st at htakes
  generalize r.take line = r' at htakes
  cases htakes with
  | constant =>
      rw [addSymbol_eq]
      rfl
  | binding => exact (keepAlias_aliasNames ..).trans (noteAlias_aliasNames ..)
  | opening hd => exact close_aliasNames r
  | code =>
      rename_i label opcode operands
      cases opcode <;> exact mark_aliasNames r label
  | faulty hd => rfl

/-- A line that binds a name again without an error binds it to a device. -/
theorem isDevice_of_take {r : Reader} {line : Line} {name target : String}
    (h : (r.take line).diagnostics.errors = []) (halias : line.statement.alias? = some (name, target))
    (hname : name ∈ r.aliasNames) : isDevice target = true := by
  have htakes := r.take_takes line
  generalize line.statement = st at htakes halias
  generalize r.take line = r' at htakes h
  cases htakes with
  | constant => cases halias
  | binding =>
      cases halias
      have herrors : (r.noteAlias name target).diagnostics.errors = [] :=
        (keepAlias_errors ..).symm.trans h
      by_contra hdevice
      simp [noteAlias, hname, hdevice, fail, Diagnostics.fail] at herrors
  | opening hd => cases halias
  | code => cases halias
  | faulty hd => cases halias

theorem take_errors (r : Reader) (line : Line) :
    r.diagnostics.errors <+: (r.take line).diagnostics.errors := by
  cases hopening : line.statement.opening? with
  | none => exact (take_absorbs hopening).errors
  | some opened =>
      obtain ⟨d, hd, htake⟩ := take_opening (r := r) hopening
      rw [htake]
      exact hd

/-! ## What the reader knows of names -/

/-- A reader that has met the bindings `bound`. -/
structure Named (r : Reader) (bound : List (String × String)) : Prop where
  aliasNames : ∀ name, name ∈ r.aliasNames ↔ name ∈ bound.map Prod.fst
  rebinds : r.diagnostics.errors = [] → Rebinds bound
  sectionNames : r.sectionNames.Nodup
  closed : ∀ s ∈ r.closed, s.name ∈ r.sectionNames
  joined : r.joined = 0

theorem named_start : Named {} [] where
  aliasNames := fun _ => Iff.rfl
  rebinds := fun _ => .nil
  sectionNames := .nil
  closed := fun _ hs => by cases hs
  joined := rfl

/-- The sections of a reader that closes its current one have their names in its list. -/
theorem Named.close_sections {r : Reader} {bound : List (String × String)} (h : r.Named bound) :
    ∀ s ∈ r.close.sections, s.name ∈ r.close.sectionNames := by
  intro s hs
  rw [Reader.close_sections h.joined, List.mem_append, List.mem_filter, List.mem_singleton] at hs
  rcases hs with hs | ⟨rfl, hholds⟩
  · exact subset_close_sectionNames r (h.closed s hs)
  · exact current_mem_close_sectionNames hholds

theorem Named.rebinds_take {r : Reader} {bound : List (String × String)} {line : Line}
    (h : r.Named bound) (hvalid : (r.take line).diagnostics.errors = []) :
    Rebinds (bound ++ line.statement.alias?.toList) := by
  have hbound := h.rebinds (List.prefix_nil.1 (hvalid ▸ take_errors r line))
  cases halias : line.statement.alias? with
  | none => rwa [Option.toList_none, List.append_nil]
  | some pair =>
      refine List.pairwise_append.2 ⟨hbound, List.pairwise_singleton .., ?_⟩
      intro earlier hearlier later hlater hsame
      obtain rfl := List.mem_singleton.1 hlater
      have hname : later.1 ∈ r.aliasNames :=
        (h.aliasNames _).2 (hsame ▸ List.mem_map_of_mem hearlier)
      exact isDevice_of_take hvalid halias hname

theorem Named.take {r : Reader} {bound : List (String × String)} (h : r.Named bound) (line : Line) :
    (r.take line).Named (bound ++ line.statement.alias?.toList) := by
  have haliasNames : ∀ name, name ∈ (r.take line).aliasNames ↔
      name ∈ (bound ++ line.statement.alias?.toList).map Prod.fst := by
    intro name
    rw [take_aliasNames, List.map_append, List.mem_append, ← h.aliasNames]
    cases line.statement.alias? with
    | none => simp
    | some pair => simp [mem_addName]
  cases hopening : line.statement.opening? with
  | none =>
      have habsorbs := take_absorbs (r := r) hopening
      refine ⟨haliasNames, h.rebinds_take, ?_, ?_, ?_⟩
      · rw [habsorbs.eq]
        exact h.sectionNames
      · rw [habsorbs.eq]
        exact h.closed
      · rw [habsorbs.eq]
        exact h.joined
  | some opened =>
      obtain ⟨d, hd, htake⟩ := take_opening (r := r) hopening
      refine ⟨haliasNames, h.rebinds_take, ?_, ?_, ?_⟩
      · rw [htake]
        exact nodup_close_sectionNames h.sectionNames
      · rw [htake]
        exact h.close_sections
      · rw [htake]
        rfl

/-- Reading texts meets the bindings of their lines. -/
theorem Named.foldl {texts : List (List Char)} :
    ∀ {r : Reader} {bound : List (String × String)} (next : Nat), r.Named bound →
      (texts.foldl step r).Named
        (bound ++ (numberedFrom next texts).filterMap fun l => l.line.statement.alias?) := by
  induction texts with
  | nil =>
      intro r bound next h
      simpa [numberedFrom] using h
  | cons text texts ih =>
      intro r bound next h
      rw [List.foldl_cons, numberedFrom]
      cases hline : Line.ofText? text with
      | none =>
          obtain ⟨d, hd, hstep⟩ := step_of_none (r := r) hline
          rw [hstep]
          refine ih (next + 1) ⟨h.aliasNames, ?_, h.sectionNames, h.closed, h.joined⟩
          exact fun hvalid => h.rebinds (List.prefix_nil.1 (hvalid ▸ hd))
      | some line =>
          have htake := h.take line
          have hstep : (r.step text).Named (bound ++ line.statement.alias?.toList) := by
            rw [step_of_some hline]
            exact ⟨htake.aliasNames, htake.rebinds, htake.sectionNames, htake.closed, htake.joined⟩
          have hrest := ih (next + 1) hstep
          rw [List.append_assoc] at hrest
          cases halias : line.statement.alias? with
          | none => simpa [halias] using hrest
          | some pair => simpa [halias] using hrest

end Reader

theorem Reader.named_read (source : String) :
    ((linesOf source).foldl Reader.step {}).Named
      ((sourceLines source).filterMap fun l => l.line.statement.alias?) :=
  Reader.named_start.foldl 0

/-! ## Aliases of sections -/

theorem mem_aliases_iff {b : Body} {name : String} :
    name ∈ b.aliases.map Prod.fst ↔
      name ∈ (b.lines.filterMap fun l => l.line.statement.alias?).map Prod.fst := by
  rw [Body.aliases, mem_keys_foldl]
  simp only [List.map_nil, List.not_mem_nil, false_or]

theorem alias?_of_opening {statement : Statement} (h : statement.opening?.isNone = false) :
    statement.alias? = none := by
  cases statement with
  | binding name target => cases h
  | constant name value => rfl
  | opening name required => rfl
  | code label opcode operands => rfl
  | faulty => rfl

/-- A name is bound in a section of the program if and only if a line of the source binds it. -/
theorem mem_sections_aliasNames {source : String} {name : String} :
    name ∈ (Reading.of source).program.sections.flatMap Section.aliasNames ↔
      name ∈ ((sourceLines source).filterMap fun l => l.line.statement.alias?).map Prod.fst := by
  have hempty : ∀ s : Section, s.isEmpty = true → s.aliasNames = [] := by
    intro s hs
    rw [Section.aliasNames, (Section.eq_nil_of_isEmpty hs).2.1, List.map_nil]
  have hbodies : (sectionsBehind [] (bodies source)).flatMap Section.aliasNames =
      (bodies source).flatMap fun b => b.aliases.map Prod.fst :=
    sectionsBehind_flatMap (fun _ _ => rfl) _ _
  rw [sections_eq, flatMap_filter_holds hempty, hbodies,
    ← bodies_filterMap (fun _ => alias?_of_opening), List.filterMap_flatMap, List.map_flatMap,
    List.mem_flatMap, List.mem_flatMap]
  simp only [mem_aliases_iff]

/-! ## The agreement -/

theorem symbol?_eq_some_iff {source : String} {s : Section} {name : String} {d : Symbol}
    (hs : s ∈ (Reading.of source).program.sections) :
    s.symbol? name = some d ↔ d ∈ s.symbols ∧ d.name = name := by
  constructor
  · intro h
    exact ⟨List.mem_of_find?_eq_some h, by simpa using List.find?_some h⟩
  · rintro ⟨hd, rfl⟩
    have hnodup := symbolNames_nodup source
    rw [symbolNames_eq, List.nodup_flatMap] at hnodup
    exact find?_key (hnodup.1 s hs) hd

/-- The names that a reading lists agree with what its sections hold. -/
structure Reading.NamesAgree (source : String) (reading : Reading) : Prop where
  /-- No two sections define a symbol of one name. -/
  disjoint : reading.program.sections.Pairwise fun s t => s.symbolNames.Disjoint t.symbolNames
  /-- The symbols of the program are those of its sections. -/
  symbols : ∀ name, name ∈ reading.program.symbolNames ↔
    ∃ s ∈ reading.program.sections, name ∈ s.symbolNames
  /-- A symbol is found under its own name and under no other. -/
  stored : ∀ s ∈ reading.program.sections, ∀ (name : String) (d : Symbol),
    s.symbol? name = some d ↔ d ∈ s.symbols ∧ d.name = name
  /-- The section that a symbol belongs to is the one that holds it, and no other of the program. -/
  owned : ∀ s ∈ reading.program.sections, ∀ d ∈ s.symbols,
    d.home = s.ordinal ∧ ∀ t ∈ reading.program.sections, t.ordinal = d.home → t = s
  /-- A symbol is defined by a line of the section that holds it. -/
  defined : ∀ s ∈ reading.program.sections, ∀ d ∈ s.symbols,
    ∃ b, IsSectionOf source b s ∧ ∃ before l after, b.lines = before ++ l :: after ∧
      l.line.statement.symbol? s.ordinal (instructionsFrom 0 before).length = some d
  /-- The aliases of the program are those of its sections. -/
  aliases : ∀ name, name ∈ reading.program.aliasNames ↔
    ∃ s ∈ reading.program.sections, name ∈ s.aliasNames
  /-- The names of sections are listed once. -/
  once : reading.sectionNames.Nodup
  /-- Every section has its name in the list. -/
  listed : ∀ s ∈ reading.program.sections, s.name ∈ reading.sectionNames
  /-- Without an error, only devices are bound to a name that an earlier line binds. -/
  rebound : reading.valid = true →
    Rebinds ((sourceLines source).filterMap fun l => l.line.statement.alias?)

/-- The names that are listed when a source is read agree with its sections. -/
theorem names_agree (source : String) : (Reading.of source).NamesAgree source where
  disjoint := by
    have hnodup := symbolNames_nodup source
    rw [symbolNames_eq, List.nodup_flatMap] at hnodup
    exact hnodup.2
  symbols := by
    intro name
    rw [symbolNames_eq, List.mem_flatMap]
    rfl
  stored := fun s hs name d => symbol?_eq_some_iff hs
  owned := by
    intro s hs d hd
    have hhoused := sections_housed source
    exact ⟨hhoused.home s hs d hd, fun t ht => hhoused.eq_of_home hs hd ht⟩
  defined := by
    intro s hs d hd
    obtain ⟨b, hb⟩ := exists_isSectionOf hs
    obtain ⟨before, l, after, hlines, hl, -⟩ := first_definition hb hd
    exact ⟨b, hb, before, l, after, hlines, hl⟩
  aliases := by
    intro name
    rw [← List.mem_flatMap, mem_sections_aliasNames, ← (Reader.named_read source).aliasNames,
      Reading.of, Reader.reading, Reader.read, Reader.close_aliasNames]
  once := Reader.nodup_close_sectionNames (Reader.named_read source).sectionNames
  listed := (Reader.named_read source).close_sections
  rebound := fun hvalid => (Reader.named_read source).rebinds (errors_of_valid hvalid)

/-- The first target of a name that is bound again may be a register. -/
example : (Reading.of "alias a r0\nalias a d1").valid = true := by
  decide +kernel

end ChipAsm
