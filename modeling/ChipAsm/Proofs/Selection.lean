import Mathlib.Data.List.Basic
import Mathlib.Logic.Relation
import ChipAsm.Proofs.Reading
import ChipAsm.Selection

/-!
# Choosing sections is reachability

The names that a run wants are those that the given names reach along requirements.  One round of
`wantedIn` goes along one requirement, and a round that names no further section is the last that
adds anything.  So as many rounds as there are sections reach everything (`mem_wanted_iff`).

The requirements of a program are those of its sections, and a section that holds nothing is not in
the program.  A source declares its requirements in directives, those of empty sections among them.
So a section may be required through an empty one and yet not be chosen.
`choose_eq_reachable_iff` says when that happens.
-/

namespace ChipAsm

open ChipAsm.Text

/-! ## Requirements -/

/-- A section that is known by `a` requires `b`. -/
def Requires (sections : List Section) (a b : String) : Prop :=
  ∃ s ∈ sections, s.key = a ∧ b ∈ s.required.map lower

/-- A name is reached from one of the given names. -/
def Reaches (edge : String → String → Prop) (given : List String) (name : String) : Prop :=
  ∃ g ∈ given, Relation.ReflTransGen edge (lower g) name

theorem Reaches.mono {edge edge' : String → String → Prop} {given : List String} {name : String}
    (hedge : ∀ a b, edge a b → edge' a b) (h : Reaches edge given name) :
    Reaches edge' given name := by
  obtain ⟨g, hg, hpath⟩ := h
  exact ⟨g, hg, Relation.ReflTransGen.mono hedge _ _ hpath⟩

theorem Reaches.step {edge : String → String → Prop} {given : List String} {a b : String}
    (h : Reaches edge given a) (hedge : edge a b) : Reaches edge given b := by
  obtain ⟨g, hg, hpath⟩ := h
  exact ⟨g, hg, hpath.tail hedge⟩

theorem mem_requiredBy {sections : List Section} {names : List String} {name : String} :
    name ∈ requiredBy sections names ↔ ∃ a ∈ names, Requires sections a name := by
  simp only [requiredBy, List.mem_flatMap, List.mem_filter, List.contains_iff_mem]
  constructor
  · rintro ⟨s, ⟨hs, hkey⟩, hname⟩
    exact ⟨s.key, hkey, s, hs, rfl, hname⟩
  · rintro ⟨a, ha, s, hs, rfl, hname⟩
    exact ⟨s, ⟨hs, ha⟩, hname⟩

theorem requiredBy_subset {sections : List Section} {names names' : List String}
    (h : names ⊆ names') : requiredBy sections names ⊆ requiredBy sections names' := by
  intro name hname
  obtain ⟨a, ha, hrequires⟩ := mem_requiredBy.1 hname
  exact mem_requiredBy.2 ⟨a, h ha, hrequires⟩

/-! ## Rounds -/

theorem wantedIn_subset_succ (sections : List Section) (given : List String) :
    ∀ steps, wantedIn sections given steps ⊆ wantedIn sections given (steps + 1)
  | 0 => by
      intro name hname
      rw [wantedIn]
      exact List.mem_append_left _ hname
  | steps + 1 => by
      intro name hname
      rw [wantedIn, List.mem_append] at hname ⊢
      rcases hname with hgiven | hrequired
      · exact Or.inl hgiven
      · exact Or.inr (requiredBy_subset (wantedIn_subset_succ sections given steps) hrequired)

/-- The sections that have been named after some rounds. -/
def namedIn (sections : List Section) (given : List String) (steps : Nat) : List Section :=
  sections.filter fun s => (wantedIn sections given steps).contains s.key

theorem wantedIn_succ (sections : List Section) (given : List String) (steps : Nat) :
    wantedIn sections given (steps + 1) =
      given ++ (namedIn sections given steps).flatMap fun s => s.required.map lower := rfl

theorem namedIn_sublist_succ (sections : List Section) (given : List String) (steps : Nat) :
    (namedIn sections given steps).Sublist (namedIn sections given (steps + 1)) := by
  apply List.monotone_filter_right
  intro s hs
  simp only [List.contains_iff_mem] at hs ⊢
  exact wantedIn_subset_succ sections given steps hs

/-- Every round names a further section until one adds nothing. -/
theorem wantedIn_stable_or_le (sections : List Section) (given : List String) :
    ∀ steps, wantedIn sections given (steps + 1) ⊆ wantedIn sections given steps ∨
      steps + 1 ≤ (namedIn sections given steps).length
  | 0 => by
      cases hnamed : namedIn sections given 0 with
      | nil =>
          left
          rw [wantedIn_succ, hnamed, List.flatMap_nil, List.append_nil]
          exact List.Subset.refl _
      | cons s rest =>
          right
          simp
  | steps + 1 => by
      rcases wantedIn_stable_or_le sections given steps with hstable | hle
      · left
        intro name hname
        rw [wantedIn, List.mem_append] at hname ⊢
        rcases hname with hgiven | hrequired
        · exact Or.inl hgiven
        · exact Or.inr (requiredBy_subset hstable hrequired)
      · have hsublist := namedIn_sublist_succ sections given steps
        by_cases hlength :
            (namedIn sections given (steps + 1)).length ≤ (namedIn sections given steps).length
        · left
          rw [wantedIn_succ, wantedIn_succ, hsublist.eq_of_length_le hlength]
          exact List.Subset.refl _
        · right
          omega

theorem wantedIn_stable (sections : List Section) (given : List String) :
    wantedIn sections given (sections.length + 1) ⊆ wantedIn sections given sections.length := by
  rcases wantedIn_stable_or_le sections given sections.length with hstable | hle
  · exact hstable
  · have hlength : (namedIn sections given sections.length).length ≤ sections.length :=
      List.length_filter_le _ _
    omega

theorem given_subset_wantedIn (sections : List Section) (given : List String) :
    ∀ steps, given ⊆ wantedIn sections given steps
  | 0 => List.Subset.refl _
  | _ + 1 => List.subset_append_left _ _

theorem reaches_of_mem_wantedIn {sections : List Section} {given : List String} :
    ∀ {steps : Nat} {name : String}, name ∈ wantedIn sections (given.map lower) steps →
      Reaches (Requires sections) given name
  | 0, name, h => by
      obtain ⟨g, hg, rfl⟩ := List.mem_map.1 h
      exact ⟨g, hg, .refl⟩
  | steps + 1, name, h => by
      rw [wantedIn, List.mem_append] at h
      rcases h with hgiven | hrequired
      · obtain ⟨g, hg, rfl⟩ := List.mem_map.1 hgiven
        exact ⟨g, hg, .refl⟩
      · obtain ⟨a, ha, hrequires⟩ := mem_requiredBy.1 hrequired
        exact (reaches_of_mem_wantedIn ha).step hrequires

/-- A run wants the names that the given ones reach. -/
theorem mem_wanted_iff {sections : List Section} {given : List String} {name : String} :
    name ∈ wanted sections given ↔ Reaches (Requires sections) given name := by
  constructor
  · exact reaches_of_mem_wantedIn
  · rintro ⟨g, hg, hpath⟩
    induction hpath with
    | refl =>
        exact given_subset_wantedIn sections (given.map lower) _ (List.mem_map_of_mem hg)
    | tail hpath hrequires ih =>
        apply wantedIn_stable
        rw [wantedIn, List.mem_append]
        exact Or.inr (mem_requiredBy.2 ⟨_, ih, hrequires⟩)

/-! ## Sections -/

open Classical in
/-- The sections whose name is reached from the given ones. -/
noncomputable def reachable (edge : String → String → Prop) (given : List String)
    (sections : List Section) : List Section :=
  sections.filter fun s => Reaches edge given s.key

theorem mem_reachable {edge : String → String → Prop} {given : List String}
    {sections : List Section} {s : Section} :
    s ∈ reachable edge given sections ↔ s ∈ sections ∧ Reaches edge given s.key := by
  simp [reachable]

theorem choose_eq_reachable {sections : List Section} {given : List String} (h : given ≠ []) :
    choose sections given = reachable (Requires sections) given sections := by
  apply List.filter_congr
  intro s _
  have hgiven : given.isEmpty = false := by simp [h]
  rw [isChosen, hgiven, Bool.false_or, Section.among, Bool.eq_iff_iff, List.contains_iff_mem]
  simp only [mem_wanted_iff, decide_eq_true_eq]

/-! ## Directives -/

/-- The source has a directive `section NAME requires ...`, where `NAME` is known by `a` and one of
the required names by `b`. -/
def Declares (source : String) (a b : String) : Prop :=
  ∃ l ∈ sourceLines source, ∃ name word names, l.line.head = .directive "section" ∧
    l.line.operands = name :: word :: names ∧ lower word = "requires" ∧ lower name = a ∧
    b ∈ names.map lower

/-- As `Declares`, by the directive of a section that holds something. -/
def DeclaresHeld (source : String) (a b : String) : Prop :=
  ∃ body ∈ bodies source, body.toSection.holds = true ∧ lower body.name = a ∧
    b ∈ body.required.map lower

theorem statement_eq_opening {line : Line} {name : String} {required : List String}
    (h : line.statement = .opening name required) :
    line.head = .directive "section" ∧
      ∃ words, line.operands = name :: words ∧ required = requiredIn words := by
  obtain ⟨head, operands, comment⟩ := line
  cases head with
  | code label opcode => cases h
  | directive word =>
      simp only [Line.statement, Statement.ofDirective] at h
      split at h
      · split at h <;> cases h
      · split at h
        · split at h <;> cases h
        · split at h
          · rename_i hword
            cases operands with
            | nil => cases h
            | cons first words =>
                cases h
                exact ⟨by rw [hword], words, rfl, rfl⟩
          · cases h

/-- The requirements of bodies are those of the first one and of the openings. -/
theorem mem_bodiesFrom_required {b : Body} {lines : List SourceLine} {a r : String} :
    (∃ body ∈ bodiesFrom b lines, lower body.name = a ∧ r ∈ body.required.map lower) ↔
      (lower b.name = a ∧ r ∈ b.required.map lower) ∨
        ∃ l ∈ lines, ∃ name required, l.line.statement = .opening name required ∧
          lower name = a ∧ r ∈ required.map lower := by
  induction lines generalizing b with
  | nil => simp [bodiesFrom]
  | cons l lines ih =>
      rw [bodiesFrom]
      cases hopen : l.line.statement.opening? with
      | none =>
          have hnone : ∀ name required, l.line.statement ≠ .opening name required := by
            intro name required hst
            rw [hst] at hopen
            cases hopen
          simp only [ih, Body.push, List.mem_cons, exists_eq_or_imp]
          simp [hnone]
      | some opened =>
          obtain ⟨name, required⟩ := opened
          have hst : l.line.statement = .opening name required := by
            generalize l.line.statement = st at hopen
            cases st <;> simp_all [Statement.opening?]
          simp only [List.mem_cons, exists_eq_or_imp, ih, hst, Statement.opening.injEq]
          simp

theorem declares_iff {source : String} {a b : String} :
    Declares source a b ↔ ∃ body ∈ bodies source, lower body.name = a ∧
      b ∈ body.required.map lower := by
  rw [bodies, mem_bodiesFrom_required]
  simp only [List.map_nil, List.not_mem_nil, and_false, false_or]
  constructor
  · rintro ⟨l, hl, name, word, names, hhead, hoperands, hword, hname, hb⟩
    cases names with
    | nil => cases hb
    | cons r rs =>
        refine ⟨l, hl, name, r :: rs, ?_, hname, hb⟩
        simp [Line.statement, hhead, Statement.ofDirective, hoperands, requiredIn, hword]
  · rintro ⟨l, hl, name, required, hst, hname, hb⟩
    obtain ⟨hhead, words, hoperands, hrequired⟩ := statement_eq_opening hst
    rcases words with _ | ⟨word, _ | ⟨r, rs⟩⟩
    · rw [hrequired] at hb
      cases hb
    · rw [hrequired] at hb
      cases hb
    · by_cases hword : lower word = "requires"
      · rw [hrequired, requiredIn, if_pos hword] at hb
        exact ⟨l, hl, name, word, r :: rs, hhead, hoperands, hword, hname, hb⟩
      · rw [hrequired, requiredIn, if_neg hword] at hb
        cases hb

theorem requires_iff {source : String} (hvalid : (Reading.of source).valid = true) {a b : String} :
    Requires (Reading.of source).program.sections a b ↔ DeclaresHeld source a b := by
  rw [Requires, DeclaresHeld, sections_eq_of_valid hvalid]
  constructor
  · rintro ⟨s, hs, hkey, hb⟩
    obtain ⟨hs, hholds⟩ := List.mem_filter.1 hs
    obtain ⟨body, hbody, rfl⟩ := List.mem_map.1 hs
    exact ⟨body, hbody, hholds, hkey, hb⟩
  · rintro ⟨body, hbody, hholds, hkey, hb⟩
    exact ⟨body.toSection, List.mem_filter.2 ⟨List.mem_map_of_mem hbody, hholds⟩, hkey, hb⟩

theorem declares_of_declaresHeld {source : String} {a b : String} (h : DeclaresHeld source a b) :
    Declares source a b := by
  obtain ⟨body, hbody, -, hname, hb⟩ := h
  exact declares_iff.2 ⟨body, hbody, hname, hb⟩

/-- Every section that an empty section requires, directly or through others, is reached without it
if the empty section is. -/
def NothingLost (source : String) (given : List String) : Prop :=
  ∀ body ∈ bodies source, body.toSection.holds = false →
    Reaches (DeclaresHeld source) given (lower body.name) →
      ∀ r ∈ body.required, ∀ s ∈ (Reading.of source).program.sections,
        Relation.ReflTransGen (Declares source) (lower r) s.key →
          Reaches (DeclaresHeld source) given s.key

/-- A path that leaves the requirements of sections that hold something does so at an empty
section. -/
theorem reaches_held_or_leaves {source : String} {given : List String} {name : String}
    (h : Reaches (Declares source) given name) :
    Reaches (DeclaresHeld source) given name ∨
      ∃ body ∈ bodies source, body.toSection.holds = false ∧
        Reaches (DeclaresHeld source) given (lower body.name) ∧
          ∃ r ∈ body.required, Relation.ReflTransGen (Declares source) (lower r) name := by
  obtain ⟨g, hg, hpath⟩ := h
  induction hpath with
  | refl => exact Or.inl ⟨g, hg, .refl⟩
  | tail hpath hdeclares ih =>
      rcases ih with hheld | ⟨body, hbody, hempty, hreach, r, hr, hrest⟩
      · obtain ⟨body, hbody, hname, hb⟩ := declares_iff.1 hdeclares
        cases hholds : body.toSection.holds with
        | true => exact Or.inl (hheld.step ⟨body, hbody, hholds, hname, hb⟩)
        | false =>
            obtain ⟨r, hr, hrname⟩ := List.mem_map.1 hb
            refine Or.inr ⟨body, hbody, hholds, ?_, r, hr, ?_⟩
            · rw [hname]
              exact hheld
            · rw [hrname]
      · exact Or.inr ⟨body, hbody, hempty, hreach, r, hr, hrest.tail hdeclares⟩

/-- The chosen sections of a source are those that the given names reach along the directives of
sections that hold something.  They are those that the given names reach along all directives
exactly when nothing is lost in an empty section. -/
theorem choose_eq_reachable_iff {source : String} {given : List String}
    (hvalid : (Reading.of source).valid = true) (hgiven : given ≠ []) :
    choose (Reading.of source).program.sections given =
        reachable (DeclaresHeld source) given (Reading.of source).program.sections ∧
      (choose (Reading.of source).program.sections given =
          reachable (Declares source) given (Reading.of source).program.sections ↔
        NothingLost source given) := by
  have hheld : choose (Reading.of source).program.sections given =
      reachable (DeclaresHeld source) given (Reading.of source).program.sections := by
    have hedge : Requires (Reading.of source).program.sections = DeclaresHeld source := by
      funext a b
      exact propext (requires_iff hvalid)
    rw [choose_eq_reachable hgiven, hedge]
  refine ⟨hheld, ?_⟩
  rw [hheld]
  constructor
  · intro heq body hbody _ hreach r hr s hs hpath
    have hdeclares : Declares source (lower body.name) (lower r) :=
      declares_iff.2 ⟨body, hbody, rfl, List.mem_map_of_mem hr⟩
    have hall : Reaches (Declares source) given s.key := by
      obtain ⟨g, hg, hstart⟩ := hreach.mono fun _ _ => declares_of_declaresHeld
      exact ⟨g, hg, (hstart.tail hdeclares).trans hpath⟩
    have hmem : s ∈ reachable (Declares source) given (Reading.of source).program.sections :=
      mem_reachable.2 ⟨hs, hall⟩
    rw [← heq] at hmem
    exact (mem_reachable.1 hmem).2
  · intro hlost
    apply List.filter_congr
    intro s hs
    have hiff : Reaches (DeclaresHeld source) given s.key ↔
        Reaches (Declares source) given s.key := by
      refine ⟨Reaches.mono fun _ _ => declares_of_declaresHeld, fun hreach => ?_⟩
      rcases reaches_held_or_leaves hreach with hkept | ⟨body, hbody, hempty, hbefore, r, hr, hpath⟩
      · exact hkept
      · exact hlost body hbody hempty hbefore r hr s hs hpath
    exact decide_eq_decide.2 hiff

/-- A chain of requirements whose first section is empty and requires nothing. -/
def emptyRoot : String := "section a\nsection B\nyield\nsection c requires A b\nyield"

theorem choose_eq_reachable_iff_emptyRoot :
    (Reading.of emptyRoot).valid = true ∧
      choose (Reading.of emptyRoot).program.sections ["C"] =
        reachable (Declares emptyRoot) ["C"] (Reading.of emptyRoot).program.sections := by
  have hvalid : (Reading.of emptyRoot).valid = true := by decide +kernel
  refine ⟨hvalid, (choose_eq_reachable_iff hvalid (by decide)).2.2 ?_⟩
  have hnone : ∀ body ∈ bodies emptyRoot, body.toSection.holds = false → body.required = [] := by
    decide +kernel
  intro body hbody hempty _ r hr
  rw [hnone body hbody hempty] at hr
  cases hr

/-- A chain of requirements whose middle section is empty. -/
def emptyMiddle : String := "section a\nyield\nsection b requires a\nsection c requires b\nyield"

/-- A section that is required through an empty one is not chosen. -/
theorem requirement_lost_in_empty_section :
    (Reading.of emptyMiddle).valid = true ∧
      (choose (Reading.of emptyMiddle).program.sections ["c"]).map Section.name = ["c"] ∧
      ∃ s ∈ (Reading.of emptyMiddle).program.sections, s.name = "a" ∧
        Reaches (Declares emptyMiddle) ["c"] s.key := by
  have hfirst : Declares emptyMiddle (lower "c") "b" := declares_iff.2 (by decide +kernel)
  have hsecond : Declares emptyMiddle "b" "a" := declares_iff.2 (by decide +kernel)
  have hsection : ∃ s ∈ (Reading.of emptyMiddle).program.sections, s.name = "a" ∧ s.key = "a" := by
    decide +kernel
  obtain ⟨s, hs, hname, hkey⟩ := hsection
  refine ⟨by decide +kernel, by decide +kernel, s, hs, hname, "c", by decide, ?_⟩
  rw [hkey]
  exact .tail (.tail .refl hfirst) hsecond

end ChipAsm
