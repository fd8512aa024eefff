import ChipAsm.Proofs.Numbering

/-!
# What a reading holds

Reading a source loses nothing, adds nothing and changes no order.  The instructions of all sections,
put together, are those that the lines of the source give, one after another (`kept_lines`).  The
sections are those of the bodies that hold anything, each body once.  A symbol of a section is defined
by a line of its body, and by no earlier line of the source (`first_definition`), so a label holds the
number of instructions that earlier lines have put into its section.  `reading_keeps_all` puts this
together; it holds of every source, whether it has errors or not.
-/

namespace ChipAsm

open ChipAsm.Text ChipAsm.Token

/-! ## Instructions -/

/-- An instruction without its position: mnemonic, operands, source line and comment. -/
def Instruction.given (l : Instruction) : String × List String × Nat × Option String :=
  (l.opcode, l.operands, l.sourceLine, l.comment)

/-- The instruction that a line gives.  Code with a mnemonic gives what is written, and the alias of a
device gives itself. -/
def SourceLine.given? (l : SourceLine) : Option (String × List String × Nat × Option String) :=
  match l.line.head with
  | .code _ (some opcode) => some (opcode, l.line.operands, l.number, l.line.comment)
  | .code _ none => none
  | .directive word =>
    match l.line.operands with
    | [name, target] =>
      if word = "alias" ∧ isDevice target then
        some ("alias", [name, target], l.number, l.line.comment)
      else none
    | _ => none

/-- Of all directives only the alias of a device gives an instruction. -/
theorem Statement.instruction?_ofDirective (word : String) (operands : List String) :
    (Statement.ofDirective word operands).instruction? =
      match operands with
      | [name, target] =>
        if word = "alias" ∧ isDevice target then some ("alias", [name, target]) else none
      | _ => none := by
  unfold Statement.ofDirective
  by_cases hdefine : word = "define"
  · subst hdefine
    rcases operands with _ | ⟨name, _ | ⟨target, _ | ⟨_, _⟩⟩⟩ <;> rfl
  · by_cases halias : word = "alias"
    · subst halias
      rcases operands with _ | ⟨name, _ | ⟨target, _ | ⟨_, _⟩⟩⟩ <;> simp [Statement.instruction?]
    · rw [if_neg hdefine, if_neg halias]
      rcases operands with _ | ⟨name, _ | ⟨target, _ | ⟨_, _⟩⟩⟩ <;>
        by_cases hsection : word = "section" <;>
        simp [halias, hsection, Statement.instruction?]

theorem given?_eq (l : SourceLine) (position : Nat) :
    l.given? = (l.instruction? position).map Instruction.given := by
  obtain ⟨number, head, operands, comment⟩ := l
  cases head with
  | code label opcode => cases opcode <;> rfl
  | directive word =>
      simp only [SourceLine.given?, SourceLine.instruction?, Line.statement,
        Statement.instruction?_ofDirective]
      rcases operands with _ | ⟨name, _ | ⟨target, _ | ⟨_, _⟩⟩⟩
      · rfl
      · rfl
      · by_cases hdevice : word = "alias" ∧ isDevice target = true
        · simp [hdevice, Instruction.given]
        · simp [hdevice]
      · rfl

theorem given_instructionsFrom (ls : List SourceLine) :
    ∀ position : Nat, (instructionsFrom position ls).map Instruction.given =
      ls.filterMap SourceLine.given? := by
  induction ls with
  | nil => exact fun _ => rfl
  | cons l ls ih =>
      intro position
      rw [instructionsFrom, List.filterMap_cons, given?_eq l position]
      cases l.instruction? position with
      | none => exact ih position
      | some instruction => exact congrArg _ (ih (position + 1))

/-- What openings do not say is said by the lines of the bodies. -/
theorem bodies_filterMap {β : Type} {f : SourceLine → Option β}
    (h : ∀ l : SourceLine, l.line.statement.opening?.isNone = false → f l = none) (source : String) :
    ((bodies source).flatMap Body.lines).filterMap f = (sourceLines source).filterMap f := by
  rw [bodies, bodiesFrom_lines_eq, List.nil_append, List.filterMap_filter]
  refine List.filterMap_congr fun l _ => ?_
  split
  · rfl
  · rename_i hopening
    exact (h l (Bool.eq_false_iff.2 hopening)).symm

theorem given?_of_opening {l : SourceLine} (h : l.line.statement.opening?.isNone = false) :
    l.given? = none := by
  rw [given?_eq l 0, SourceLine.instruction?]
  cases hstatement : l.line.statement with
  | opening name required => rfl
  | constant name value => rw [hstatement] at h; cases h
  | binding name target => rw [hstatement] at h; cases h
  | code label opcode operands => rw [hstatement] at h; cases h
  | faulty => rw [hstatement] at h; cases h

/-- The instructions of the program are those that the lines of the source give, in order. -/
theorem kept_lines (source : String) :
    ((Reading.of source).program.sections.flatMap Section.lines).map Instruction.given =
      (sourceLines source).filterMap SourceLine.given? := by
  have hsections : (Reading.of source).program.sections.flatMap Section.lines =
      (bodies source).flatMap Body.instructions := by
    rw [sections_eq, flatMap_filter_holds fun s hs => (Section.eq_nil_of_isEmpty hs).1,
      sectionsBehind_lines]
  calc ((Reading.of source).program.sections.flatMap Section.lines).map Instruction.given
      = (bodies source).flatMap fun b => b.lines.filterMap SourceLine.given? := by
        rw [hsections, List.map_flatMap]
        exact List.flatMap_congr fun b _ => given_instructionsFrom b.lines 0
    _ = ((bodies source).flatMap Body.lines).filterMap SourceLine.given? := by
        rw [List.filterMap_flatMap]
    _ = (sourceLines source).filterMap SourceLine.given? :=
        bodies_filterMap (fun _ => given?_of_opening) source

/-! ## Definitions -/

/-- The name of the symbol that is defined. -/
def Statement.defined? (statement : Statement) : Option String :=
  (statement.symbol? 0 0).map Symbol.name

theorem Statement.defined?_eq (statement : Statement) (home position : Nat) :
    statement.defined? = (statement.symbol? home position).map Symbol.name := by
  cases statement with
  | code label opcode operands => cases label <;> rfl
  | constant name value => rfl
  | binding name target => rfl
  | opening name required => rfl
  | faulty => rfl

theorem names_definitionsFrom (home : Nat) (ls : List SourceLine) :
    ∀ position : Nat, (definitionsFrom home position ls).map Symbol.name =
      ls.filterMap fun l => l.line.statement.defined? := by
  induction ls with
  | nil => exact fun _ => rfl
  | cons l ls ih =>
      intro position
      rw [definitionsFrom, List.map_append, ih, List.filterMap_cons,
        Statement.defined?_eq _ home position]
      cases l.line.statement.symbol? home position <;> rfl

theorem name_mem_fresh (ds : List Symbol) :
    ∀ {taken : List String} {d : Symbol}, d ∈ ds →
      d.name ∈ taken ++ (fresh taken ds).map Symbol.name := by
  induction ds with
  | nil =>
      intro taken d hd
      cases hd
  | cons e ds ih =>
      intro taken d hd
      rw [fresh]
      split
      · rename_i htaken
        rcases List.mem_cons.1 hd with rfl | hd
        · exact List.mem_append_left _ htaken
        · exact ih hd
      · rcases List.mem_cons.1 hd with rfl | hd
        · simp
        · have hrest : d.name ∈ (taken ++ [e.name]) ++ (fresh (taken ++ [e.name]) ds).map Symbol.name :=
            ih hd
          simpa using hrest

/-- The symbols that are kept are those whose name is neither taken nor defined before. -/
theorem split_of_mem_fresh (ds : List Symbol) :
    ∀ {taken : List String} {d : Symbol}, d ∈ fresh taken ds →
      d.name ∉ taken ∧ ∃ before after, ds = before ++ d :: after ∧
        ∀ e ∈ before, e.name ≠ d.name := by
  induction ds with
  | nil =>
      intro taken d hd
      cases hd
  | cons e ds ih =>
      intro taken d hd
      rw [fresh] at hd
      split at hd
      · rename_i htaken
        obtain ⟨hnew, before, after, rfl, hbefore⟩ := ih hd
        refine ⟨hnew, e :: before, after, rfl, ?_⟩
        intro e' he'
        rcases List.mem_cons.1 he' with rfl | he'
        · rintro heq
          exact hnew (heq ▸ htaken)
        · exact hbefore e' he'
      · rename_i htaken
        rcases List.mem_cons.1 hd with rfl | hd
        · exact ⟨htaken, [], ds, rfl, fun _ he => by cases he⟩
        · obtain ⟨hnew, before, after, rfl, hbefore⟩ := ih hd
          rw [List.mem_append, List.mem_singleton, not_or] at hnew
          refine ⟨hnew.1, e :: before, after, rfl, ?_⟩
          intro e' he'
          rcases List.mem_cons.1 he' with rfl | he'
          · exact fun heq => hnew.2 heq.symm
          · exact hbefore e' he'

theorem length_instructionsFrom_cons (position : Nat) (l : SourceLine) (ls : List SourceLine) :
    (instructionsFrom position (l :: ls)).length =
      (l.instruction? position).toList.length +
        (instructionsFrom (position + (l.instruction? position).toList.length) ls).length := by
  rw [instructionsFrom]
  cases l.instruction? position with
  | none => simp
  | some instruction => simp [Nat.add_comm]

/-- A symbol among those that lines define is defined by one of the lines, behind the instructions of
the lines before. -/
theorem line_of_definitionsFrom {home : Nat} (ls : List SourceLine) :
    ∀ {position : Nat} {d : Symbol} {defined others : List Symbol},
      definitionsFrom home position ls = defined ++ d :: others →
        ∃ before l after, ls = before ++ l :: after ∧
          l.line.statement.symbol? home (position + (instructionsFrom position before).length) =
            some d ∧
          definitionsFrom home position before = defined := by
  induction ls with
  | nil =>
      intro position d defined others h
      simp [definitionsFrom] at h
  | cons l ls ih =>
      intro position d defined others h
      rw [definitionsFrom] at h
      cases hsymbol : l.line.statement.symbol? home position with
      | none =>
          rw [hsymbol, Option.toList_none, List.nil_append] at h
          obtain ⟨before, l', after, rfl, hl', hdefined⟩ := ih h
          refine ⟨l :: before, l', after, rfl, ?_, ?_⟩
          · rw [length_instructionsFrom_cons, ← Nat.add_assoc]
            exact hl'
          · rw [definitionsFrom, hsymbol, Option.toList_none, List.nil_append, hdefined]
      | some e =>
          rw [hsymbol, Option.toList_some, List.singleton_append] at h
          cases defined with
          | nil =>
              cases h
              exact ⟨[], l, ls, rfl, hsymbol, rfl⟩
          | cons e' defined =>
              rw [List.cons_append] at h
              obtain ⟨rfl, hrest⟩ := List.cons.inj h
              obtain ⟨before, l', after, rfl, hl', hdefined⟩ := ih hrest
              refine ⟨l :: before, l', after, rfl, ?_, ?_⟩
              · rw [length_instructionsFrom_cons, ← Nat.add_assoc]
                exact hl'
              · rw [definitionsFrom, hsymbol, Option.toList_some, List.singleton_append, hdefined]

/-! ## Sections and their bodies -/

/-- The section is that of a body of the source. -/
def IsSectionOf (source : String) (b : Body) (s : Section) : Prop :=
  ∃ i : Nat, (bodies source)[i]? = some b ∧ (sectionsBehind [] (bodies source))[i]? = some s

/-- The section of a body is made behind all names that the bodies before it define. -/
theorem sectionsBehind_getElem? (bs : List Body) :
    ∀ {taken : List String} {i : Nat} {s : Section}, (sectionsBehind taken bs)[i]? = some s →
      ∃ b taken', bs[i]? = some b ∧ s = b.sectionBehind taken' ∧ (∀ name ∈ taken, name ∈ taken') ∧
        ∀ b' ∈ bs.take i, ∀ d ∈ b'.definitions, d.name ∈ taken' := by
  induction bs with
  | nil =>
      intro taken i s hs
      simp [sectionsBehind] at hs
  | cons b bs ih =>
      intro taken i s hs
      rw [sectionsBehind] at hs
      cases i with
      | zero =>
          cases hs
          exact ⟨b, taken, rfl, rfl, fun _ hname => hname, fun _ hb => by simp at hb⟩
      | succ i =>
          obtain ⟨b', taken', hb', hs', htaken, hdefined⟩ := ih hs
          refine ⟨b', taken', hb', hs', ?_, ?_⟩
          · exact fun name hname => htaken name (List.mem_append_left _ hname)
          · intro b'' hb'' d hd
            rw [List.take_succ_cons] at hb''
            rcases List.mem_cons.1 hb'' with rfl | hb''
            · exact htaken d.name (name_mem_fresh _ hd)
            · exact hdefined b'' hb'' d hd

/-- Every section of the program is that of a body. -/
theorem exists_isSectionOf {source : String} {s : Section}
    (h : s ∈ (Reading.of source).program.sections) : ∃ b, IsSectionOf source b s := by
  rw [sections_eq] at h
  obtain ⟨i, hi⟩ := List.mem_iff_getElem?.1 (List.mem_of_mem_filter h)
  obtain ⟨b, -, hb, -⟩ := sectionsBehind_getElem? _ hi
  exact ⟨b, i, hb, hi⟩

theorem IsSectionOf.lines {source : String} {b : Body} {s : Section} (h : IsSectionOf source b s) :
    s.lines = b.instructions := by
  obtain ⟨i, hb, hs⟩ := h
  obtain ⟨b', taken, hb', rfl, -⟩ := sectionsBehind_getElem? _ hs
  rw [hb] at hb'
  cases hb'
  rfl

theorem mem_of_number_lt {before after : List SourceLine} {l l' : SourceLine}
    (h : (before ++ l :: after).Pairwise fun l l' => l.number < l'.number)
    (hl' : l' ∈ before ++ l :: after) (hlt : l'.number < l.number) : l' ∈ before := by
  rcases List.mem_append.1 hl' with hl' | hl'
  · exact hl'
  · rcases List.mem_cons.1 hl' with rfl | hl'
    · omega
    · have := List.rel_of_pairwise_cons (List.pairwise_append.1 h).2.1 hl'
      omega

/-- A line that defines a symbol stands in a body. -/
theorem mem_bodies_of_defined {source : String} {l : SourceLine} {name : String}
    (hl : l ∈ sourceLines source) (hname : l.line.statement.defined? = some name) :
    l ∈ (bodies source).flatMap Body.lines := by
  rw [bodies, bodiesFrom_lines_eq, List.nil_append, List.mem_filter]
  refine ⟨hl, ?_⟩
  cases hstatement : l.line.statement with
  | opening name' required =>
      rw [hstatement] at hname
      cases hname
  | constant name value => rfl
  | binding name target => rfl
  | code label opcode operands => rfl
  | faulty => rfl

theorem exists_definition {b : Body} {l : SourceLine} {name : String} (hl : l ∈ b.lines)
    (hname : l.line.statement.defined? = some name) : ∃ d ∈ b.definitions, d.name = name := by
  have hnames : name ∈ b.definitions.map Symbol.name := by
    rw [Body.definitions, names_definitionsFrom]
    exact List.mem_filterMap.2 ⟨l, hl, hname⟩
  exact List.mem_map.1 hnames

/-- A symbol of a section is defined by a line of its body, behind the instructions of the lines
before, and no earlier line of the source defines its name. -/
theorem first_definition {source : String} {b : Body} {s : Section} {d : Symbol}
    (h : IsSectionOf source b s) (hd : d ∈ s.symbols) :
    ∃ before l after, b.lines = before ++ l :: after ∧
      l.line.statement.symbol? s.ordinal (instructionsFrom 0 before).length = some d ∧
      ∀ l' ∈ sourceLines source, l'.number < l.number →
        l'.line.statement.defined? ≠ some d.name := by
  obtain ⟨i, hb, hs⟩ := h
  obtain ⟨b', taken, hb', rfl, -, htaken⟩ := sectionsBehind_getElem? _ hs
  rw [hb] at hb'
  cases hb'
  obtain ⟨hnew, defined, others, hdefinitions, hdefined⟩ := split_of_mem_fresh _ hd
  obtain ⟨before, l, after, hlines, hl, rfl⟩ := line_of_definitionsFrom _ hdefinitions
  rw [Nat.zero_add] at hl
  refine ⟨before, l, after, hlines, hl, ?_⟩
  intro l' hl' hlt hname
  -- An earlier line stands in an earlier body or before `l` in the same one.
  obtain ⟨hi, hget⟩ := List.getElem?_eq_some_iff.1 hb
  have hbodies : bodies source = (bodies source).take i ++ b :: (bodies source).drop (i + 1) := by
    rw [← hget, ← List.drop_eq_getElem_cons hi, List.take_append_drop]
  have hall : (bodies source).flatMap Body.lines =
      (((bodies source).take i).flatMap Body.lines ++ before) ++
        l :: (after ++ ((bodies source).drop (i + 1)).flatMap Body.lines) := by
    conv_lhs => rw [hbodies]
    simp [hlines]
  have hbefore := mem_of_number_lt (hall ▸ bodies_pairwise source)
    (hall ▸ mem_bodies_of_defined hl' hname) hlt
  rcases List.mem_append.1 hbefore with hearlier | hbefore
  · obtain ⟨b'', hb'', hl''⟩ := List.mem_flatMap.1 hearlier
    obtain ⟨e, he, hename⟩ := exists_definition hl'' hname
    exact hnew (hename ▸ htaken b'' hb'' e he)
  · obtain ⟨e, he, hename⟩ := exists_definition (b := { b with lines := before }) hbefore hname
    exact hdefined e he hename

theorem number_of_mem_instructionsFrom {position : Nat} {ls : List SourceLine} {x : Instruction}
    (hx : x ∈ instructionsFrom position ls) : ∃ l ∈ ls, l.number = x.sourceLine :=
  List.mem_map.1 ((instructionsFrom_sourceLines ls position).subset (List.mem_map_of_mem hx))

/-- The instructions that lines before `l` give are those with a smaller source line. -/
theorem instructionsFrom_earlier {before after : List SourceLine} {l : SourceLine}
    (h : (before ++ l :: after).Pairwise fun l l' => l.number < l'.number) :
    (instructionsFrom 0 (before ++ l :: after)).filter (fun x => x.sourceLine < l.number) =
      instructionsFrom 0 before := by
  obtain ⟨-, hafter, hbefore⟩ := List.pairwise_append.1 h
  rw [instructionsFrom_append, List.filter_append]
  have hkept : (instructionsFrom 0 before).filter (fun x => x.sourceLine < l.number) =
      instructionsFrom 0 before := by
    refine List.filter_eq_self.2 fun x hx => ?_
    obtain ⟨l', hl', hnumber⟩ := number_of_mem_instructionsFrom hx
    have := hbefore l' hl' l (List.mem_cons_self ..)
    exact decide_eq_true (by omega)
  have hdropped : (instructionsFrom (0 + (instructionsFrom 0 before).length) (l :: after)).filter
      (fun x => x.sourceLine < l.number) = [] := by
    refine List.filter_eq_nil_iff.2 fun x hx => ?_
    obtain ⟨l', hl', hnumber⟩ := number_of_mem_instructionsFrom hx
    rw [decide_eq_true_iff]
    rcases List.mem_cons.1 hl' with rfl | hl'
    · omega
    · have := List.rel_of_pairwise_cons hafter hl'
      omega
  rw [hkept, hdropped, List.append_nil]

theorem IsSectionOf.lines_pairwise {source : String} {b : Body} {s : Section}
    (h : IsSectionOf source b s) : b.lines.Pairwise fun l l' => l.number < l'.number := by
  obtain ⟨i, hb, -⟩ := h
  exact (bodies_pairwise source).sublist (List.sublist_flatten_of_mem
    (List.mem_map_of_mem (List.mem_of_getElem? hb)))

/-- A label of a section holds the number of instructions of the section that stand on earlier lines
than the one that defines it. -/
theorem label_counts {source : String} {b : Body} {s : Section} {home : Nat} {name : String} {p : Int}
    (h : IsSectionOf source b s) (hlabel : .label home name p ∈ s.symbols) :
    ∃ l ∈ b.lines, l.line.statement.marks name = true ∧
      (∀ l' ∈ sourceLines source, l'.number < l.number →
        l'.line.statement.defined? ≠ some name) ∧
      p = ((s.lines.filter fun x => x.sourceLine < l.number).length : Nat) := by
  obtain ⟨before, l, after, hlines, hl, hfirst⟩ := first_definition h hlabel
  obtain ⟨opcode, operands, hstatement, hp⟩ := Statement.symbol?_eq_label hl
  refine ⟨l, ?_, Statement.marks_iff.2 ⟨opcode, operands, hstatement⟩, hfirst, ?_⟩
  · rw [hlines]
    exact List.mem_append_right _ (List.mem_cons_self ..)
  · have hearlier := instructionsFrom_earlier (hlines ▸ h.lines_pairwise)
    rw [hp, h.lines, Body.instructions, hlines, hearlier]

/-! ## The whole reading -/

/-- The reading of a source holds all that the source says, once and in order. -/
structure Reading.KeepsAll (source : String) (reading : Reading) : Prop where
  /-- The instructions of the sections in order are those that the lines give. -/
  lines : (reading.program.sections.flatMap Section.lines).map Instruction.given =
    (sourceLines source).filterMap SourceLine.given?
  /-- The position of an instruction is its index in its section. -/
  positions : ∀ s ∈ reading.program.sections, ∀ (i : Nat) (l : Instruction),
    s.lines[i]? = some l → l.position = i
  /-- Each body has one section, and the sections that hold something are those of the program. -/
  sections : reading.program.sections = (sectionsBehind [] (bodies source)).filter Section.holds
  /-- No section is empty. -/
  held : ∀ s ∈ reading.program.sections, s.isEmpty = false
  /-- A label holds the number of instructions that lines before its own, which is the first to define
  its name, have put into its section. -/
  labels : ∀ s ∈ reading.program.sections, ∀ (home : Nat) (name : String) (p : Int),
    .label home name p ∈ s.symbols →
    ∃ b l, IsSectionOf source b s ∧ l ∈ b.lines ∧ l.line.statement.marks name = true ∧
      (∀ l' ∈ sourceLines source, l'.number < l.number →
        l'.line.statement.defined? ≠ some name) ∧
      p = ((s.lines.filter fun x => x.sourceLine < l.number).length : Nat) ∧
      0 ≤ p ∧ p ≤ s.size

/-- Reading a source loses, doubles and reorders nothing. -/
theorem reading_keeps_all (source : String) : (Reading.of source).KeepsAll source where
  lines := kept_lines source
  positions := by
    intro s hs i l hl
    obtain ⟨b, hb⟩ := exists_isSectionOf hs
    rw [hb.lines] at hl
    rw [instructionsFrom_position b.lines hl, Nat.zero_add]
  sections := sections_eq source
  held := by
    intro s hs
    rw [sections_eq] at hs
    simpa [Section.holds] using List.of_mem_filter hs
  labels := by
    intro s hs home name p hlabel
    obtain ⟨b, hb⟩ := exists_isSectionOf hs
    obtain ⟨l, hl, hmarks, hfirst, hp⟩ := label_counts hb hlabel
    refine ⟨b, l, hb, hl, hmarks, hfirst, hp, ?_, ?_⟩
    · rw [hp]
      exact Int.natCast_nonneg _
    · rw [hp]
      exact Int.ofNat_le.2 (List.length_filter_le ..)

end ChipAsm
