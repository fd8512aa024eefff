import ChipAsm.Proofs.Emission
import ChipAsm.Proofs.Filtering
import ChipAsm.Proofs.Selection

/-!
# What a section requires comes first

A section may require only what was declared before it.  The reader checks this when it meets the
directive of the section: every name it requires is, in some case, that of a section that is closed by
then, and each of these was opened by an earlier directive.  No name that can be required is that of the
section without a directive (`Reader.Knows.met`).

A run that takes a section takes every section of the names that it requires, and keeps the order of the
source.  So a section that is required and stands earlier in the source is placed earlier, and ends where
the section that requires it starts or before (`prerequisites_first`).  One of the same name that stands
later is taken too, and is placed later.
-/

namespace ChipAsm

open ChipAsm.Text

/-! ## Directives that open sections -/

/-- A directive that opens a section. -/
structure Opening where
  /-- The number of its line. -/
  number : Nat
  /-- The name of the section. -/
  name : String
  /-- The names of the sections that it requires. -/
  required : List String
deriving Repr, DecidableEq

/-- The section that a line opens. -/
def SourceLine.opening? (l : SourceLine) : Option Opening :=
  l.line.statement.opening?.map fun (name, required) => ⟨l.number, name, required⟩

/-- The directives of a source that open sections. -/
def openings (source : String) : List Opening := (sourceLines source).filterMap SourceLine.opening?

/-- The sections of a source in order, each with the directive that opens it.  The first has none. -/
def declared (source : String) : List (Option Opening × Section) :=
  (none :: (openings source).map some).zip ((bodies source).map Body.toSection)

/-- The sections of a source that hold something and that a run takes. -/
def declaredTaken (source : String) (given : List String) : List (Option Opening × Section) :=
  ((declared source).filter fun entry => entry.2.holds).filter fun entry =>
    isChosen given (wanted (Reading.of source).program.sections given) entry.2

theorem Statement.opening?_eq_some {statement : Statement} {name : String} {required : List String} :
    statement.opening? = some (name, required) ↔ statement = .opening name required := by
  cases statement <;> simp [opening?]

theorem mem_operands_of_required {line : Line} {name : String} {required : List String}
    (h : line.statement.opening? = some (name, required)) : ∀ r ∈ required, r ∈ line.operands := by
  obtain ⟨-, words, hoperands, rfl⟩ := statement_eq_opening (Statement.opening?_eq_some.1 h)
  intro r hr
  rw [hoperands]
  rcases words with _ | ⟨word, _ | ⟨q, qs⟩⟩
  · cases hr
  · cases hr
  · by_cases hword : lower word = "requires"
    · rw [requiredIn, if_pos hword] at hr
      exact List.mem_cons_of_mem _ (List.mem_cons_of_mem _ hr)
    · rw [requiredIn, if_neg hword] at hr
      cases hr

theorem bodiesFrom_openings (ls : List SourceLine) :
    ∀ b : Body, (bodiesFrom b ls).map (fun c => (c.name, c.required)) =
      (b.name, b.required) :: (ls.filterMap SourceLine.opening?).map fun o => (o.name, o.required) := by
  induction ls with
  | nil => exact fun b => rfl
  | cons l ls ih =>
      intro b
      rw [bodiesFrom]
      cases hopening : l.line.statement.opening? with
      | none => simp [ih, SourceLine.opening?, hopening, Body.push]
      | some opened => simp [ih, SourceLine.opening?, hopening]

theorem length_bodies (source : String) : (bodies source).length = (openings source).length + 1 := by
  have hlength := congrArg List.length (bodiesFrom_openings (sourceLines source) {})
  simpa [bodies, openings] using hlength

theorem openings_pairwise (source : String) :
    (openings source).Pairwise fun o o' => o.number < o'.number := by
  rw [openings, List.pairwise_filterMap]
  refine (numberedFrom_pairwise _ _).imp ?_
  intro l l' hlt o ho o' ho'
  obtain ⟨_, -, rfl⟩ := Option.map_eq_some_iff.1 ho
  obtain ⟨_, -, rfl⟩ := Option.map_eq_some_iff.1 ho'
  exact hlt

/-! ## Declared sections -/

section Declared

variable {source : String}

theorem map_fst_declared (source : String) :
    (declared source).map Prod.fst = none :: (openings source).map some :=
  List.map_fst_zip (by simp [length_bodies])

theorem map_snd_declared (source : String) :
    (declared source).map Prod.snd = (bodies source).map Body.toSection :=
  List.map_snd_zip (by simp [length_bodies])

/-- The directive of a section says its name and what it requires, and only the first section, which
has a name of its own and requires nothing, has none. -/
theorem opening_of_mem_declared {d : Option Opening} {s : Section} (h : (d, s) ∈ declared source) :
    d = none ∧ s.name = Section.defaultName ∧ s.required = [] ∨
      ∃ o ∈ openings source, d = some o ∧ o.name = s.name ∧ o.required = s.required := by
  obtain ⟨i, hi⟩ := List.mem_iff_getElem?.1 h
  obtain ⟨hd, hs⟩ := List.getElem?_zip_eq_some.1 hi
  rw [List.getElem?_map] at hs
  obtain ⟨b, hb, rfl⟩ := Option.map_eq_some_iff.1 hs
  have hsaid := congrArg (fun l => l[i]?) (bodiesFrom_openings (sourceLines source) {})
  simp only [List.getElem?_map] at hsaid
  rw [show (bodiesFrom {} (sourceLines source))[i]? = some b from hb] at hsaid
  cases i with
  | zero =>
      left
      simp only [List.getElem?_cons_zero, Option.map_some, Option.some.injEq, Prod.mk.injEq] at hd hsaid
      exact ⟨hd.symm, hsaid⟩
  | succ i =>
      right
      simp only [List.getElem?_cons_succ, List.getElem?_map, Option.map_some] at hd hsaid
      obtain ⟨o, ho, rfl⟩ := Option.map_eq_some_iff.1 hd
      rw [show ((sourceLines source).filterMap SourceLine.opening?)[i]? = some o from ho] at hsaid
      simp only [Option.map_some, Option.some.injEq, Prod.mk.injEq] at hsaid
      exact ⟨o, List.mem_of_getElem? ho, rfl, hsaid.1.symm, hsaid.2.symm⟩

/-- The directives of the sections stand in the order of the sections. -/
theorem declaredTaken_pairwise (source : String) (given : List String) :
    (declaredTaken source given).Pairwise fun entry entry' =>
      ∀ o ∈ entry.1, ∀ o' ∈ entry'.1, o.number < o'.number := by
  refine (List.Pairwise.filter _ ?_).filter _
  have hfst : ((declared source).map Prod.fst).Pairwise fun d d' =>
      ∀ o ∈ d, ∀ o' ∈ d', o.number < o'.number := by
    rw [map_fst_declared, List.pairwise_cons, List.pairwise_map]
    constructor
    · intro d _ o ho
      cases ho
    · refine (openings_pairwise source).imp ?_
      intro o o' hlt p hp p' hp'
      cases hp
      cases hp'
      exact hlt
  exact List.pairwise_map.1 hfst

/-- The sections of a source that a run takes are the chosen ones of its program. -/
theorem map_snd_declaredTaken {given : List String} (hvalid : (Reading.of source).valid = true) :
    (declaredTaken source given).map Prod.snd =
      choose (Reading.of source).program.sections given := by
  have hheld : ((declared source).filter fun entry => entry.2.holds).map Prod.snd =
      (Reading.of source).program.sections := by
    rw [sections_eq_of_valid hvalid, ← map_snd_declared, List.filter_map]
    rfl
  rw [choose, declaredTaken]
  generalize isChosen given (wanted (Reading.of source).program.sections given) = test
  rw [← hheld, List.filter_map]
  rfl

/-- The section `k` of a run is placed at its offset. -/
theorem chosen_getElem?_eq {given : List String} (hvalid : (Reading.of source).valid = true) (k : Nat) :
    ((Reading.of source).chosen given)[k]? = (declaredTaken source given)[k]?.map fun entry =>
      { entry.2 with
        offset := totalSize ((choose (Reading.of source).program.sections given).take k) } := by
  rw [Reading.chosen, layoutFrom_getElem?, ← map_snd_declaredTaken hvalid, List.getElem?_map,
    Option.map_map]
  simp [Function.comp_def]

end Declared

/-! ## Requirements that are met -/

/-- Every name that an opening requires is, in some case, among those known or that of an earlier
opening. -/
def Met (known : List String) : List Opening → Prop
  | [] => True
  | o :: rest =>
    (∀ r ∈ o.required, ∃ name ∈ known, lower name = lower r) ∧ Met (known ++ [o.name]) rest

theorem Met.of_split {before after : List Opening} {o : Opening} :
    ∀ {known : List String}, Met known (before ++ o :: after) →
      ∀ r ∈ o.required, ∃ name ∈ known ++ before.map Opening.name, lower name = lower r := by
  induction before with
  | nil =>
      intro known h r hr
      simpa using h.1 r hr
  | cons o' before ih =>
      intro known h r hr
      simpa using ih h.2 r hr

namespace Reader

/-- The sections that a reader has met have names among those known. -/
structure Knows (r : Reader) (known : List String) : Prop where
  current : r.current.name ∈ known
  sectionNames : ∀ name ∈ r.sectionNames, name ∈ known

theorem Knows.close {r : Reader} {known : List String} (h : r.Knows known) :
    ∀ name ∈ r.close.sectionNames, name ∈ known := by
  intro name hname
  rcases r.close_sectionNames with hnames | ⟨-, hnames⟩
  · rw [hnames, mem_addName] at hname
    exact hname.elim (h.sectionNames name) fun heq => heq ▸ h.current
  · exact h.sectionNames name (hnames ▸ hname)

/-- A directive that opens a section without an error requires names of closed sections only. -/
theorem required_of_opening {r : Reader} {line : Line} {name : String} {required : List String}
    (hopening : line.statement.opening? = some (name, required))
    (hvalid : (r.take line).diagnostics.errors = []) :
    ∀ q ∈ required, lower q ∈ r.close.sectionNames.map lower := by
  obtain ⟨hhead, words, hoperands, rfl⟩ := statement_eq_opening (Statement.opening?_eq_some.1 hopening)
  rw [take_fault, errorsWith_eq_nil_iff] at hvalid
  have hfault : (r.close.requirements words).2 = none := by
    simpa [fault?, hhead, hoperands] using hvalid.2
  rcases words with _ | ⟨word, _ | ⟨q, qs⟩⟩
  · simp [requiredIn]
  · simp [requiredIn]
  · by_cases hword : lower word = "requires"
    · simp only [requirements, hword, if_pos, Option.map_eq_none_iff] at hfault
      simpa [requiredIn, hword] using missing?_eq_none_iff.1 hfault
    · simp [requiredIn, hword]

/-- A source that is read without errors meets its requirements line by line. -/
theorem Knows.met (texts : List (List Char)) :
    ∀ {r : Reader} {known : List String}, r.Knows known →
      (texts.foldl step r).diagnostics.errors = [] →
        Met known ((numberedFrom r.line texts).filterMap SourceLine.opening?) := by
  induction texts with
  | nil => exact fun _ _ => trivial
  | cons text texts ih =>
      intro r known h hvalid
      rw [List.foldl_cons] at hvalid
      have hnow : (r.step text).diagnostics.errors = [] :=
        List.prefix_nil.1 (hvalid ▸ foldl_errors texts (r.step text))
      rw [numberedFrom]
      cases hline : Line.ofText? text with
      | none =>
          obtain ⟨d, -, hstep⟩ := step_of_none (r := r) hline
          have hknows : (r.step text).Knows known := by
            rw [hstep]
            exact ⟨h.current, h.sectionNames⟩
          have hmet := ih hknows hvalid
          rwa [hstep] at hmet
      | some line =>
          have hstep := step_of_some (r := r) hline
          cases hopening : line.statement.opening? with
          | none =>
              have habsorbs := take_absorbs (r := r) hopening
              have hknows : (r.step text).Knows known := by
                rw [hstep, habsorbs.eq]
                exact ⟨h.current, h.sectionNames⟩
              have hmet := ih hknows hvalid
              rw [hstep, habsorbs.eq] at hmet
              simpa [SourceLine.opening?, hopening, absorb] using hmet
          | some opened =>
              obtain ⟨name, required⟩ := opened
              obtain ⟨d, -, htake⟩ := take_opening (r := r) hopening
              have hrequired := required_of_opening hopening (by simpa [hstep] using hnow)
              have hknows : (r.step text).Knows (known ++ [name]) := by
                rw [hstep, htake]
                refine ⟨by simp [start], fun other hother => ?_⟩
                exact List.mem_append_left _ (h.close other hother)
              have hmet := ih hknows hvalid
              rw [hstep, htake] at hmet
              simp only [List.filterMap_cons, SourceLine.opening?, hopening, Option.map_some]
              refine ⟨fun q hq => ?_, ?_⟩
              · obtain ⟨other, hother, hlower⟩ := List.mem_map.1 (hrequired q hq)
                exact ⟨other, h.close other hother, hlower⟩
              · simpa [start, close_line] using hmet

end Reader

/-- The section without a directive has a name that no directive can require. -/
theorem required_ne_defaultName {source : String} {o : Opening} {r : String} (ho : o ∈ openings source)
    (hr : r ∈ o.required) : lower r ≠ lower Section.defaultName := by
  obtain ⟨l, hl, hopening⟩ := List.mem_filterMap.1 ho
  obtain ⟨⟨name, required⟩, hopened, rfl⟩ := Option.map_eq_some_iff.1 hopening
  exact lower_ne_defaultName
    (isToken_of_mem_sourceLines l hl r (mem_operands_of_required hopened r hr))

/-- A directive that requires a name stands behind one that opens a section of that name. -/
theorem earlier_opening {source : String} {o : Opening} {r : String}
    (hvalid : (Reading.of source).valid = true) (ho : o ∈ openings source) (hr : r ∈ o.required) :
    ∃ o' ∈ openings source, o'.number < o.number ∧ lower o'.name = lower r := by
  have hmet : Met [Section.defaultName] (openings source) :=
    Reader.Knows.met (linesOf source) (r := {}) ⟨by simp, by simp⟩ (errors_of_valid hvalid)
  have hpairwise := openings_pairwise source
  obtain ⟨before, after, hsplit⟩ := List.append_of_mem ho
  rw [hsplit] at hmet hpairwise
  obtain ⟨name, hname, hlower⟩ := hmet.of_split r hr
  rw [List.singleton_append, List.mem_cons] at hname
  rcases hname with rfl | hname
  · exact absurd hlower.symm (required_ne_defaultName ho hr)
  · obtain ⟨o', ho', rfl⟩ := List.mem_map.1 hname
    refine ⟨o', ?_, ?_, hlower⟩
    · rw [hsplit]
      exact List.mem_append_left _ ho'
    · exact (List.pairwise_append.1 hpairwise).2.2 o' ho' o (List.mem_cons_self ..)

/-! ## Placing -/

/-- A run places chosen sections one by one, and all of them if it has a result. -/
theorem placed_prefix_chosen {reading : Reading} (hvalid : reading.valid = true) (table : Table)
    (advisories : List Advisory) (options : Options) :
    (reading.assemble table advisories options).placed <+: reading.chosen options.sections ∧
      ∀ a, (reading.assemble table advisories options).result = .ok a →
        a.sections = reading.chosen options.sections := by
  constructor
  · rw [Reading.assemble, if_pos hvalid]
    simp only [Reading.filter_place]
    split
    · exact List.prefix_refl _
    · exact List.take_prefix _ _
  · intro a ha
    obtain ⟨outcomes, -, rfl⟩ := Reading.assemble_result hvalid ha
    rfl

/-- A chosen section ends where any later one starts, or before. -/
theorem chosen_end_le_offset {reading : Reading} {given : List String} {j k : Nat} {t s : Section}
    (ht : (reading.chosen given)[j]? = some t) (hs : (reading.chosen given)[k]? = some s)
    (hlt : j < k) : t.offset + t.size ≤ s.offset := by
  have hfront : ((reading.chosen given).take k)[j]? = some t := by
    rw [List.getElem?_take_of_lt hlt, ht]
  have hle := totalSize_take_add_size_le hfront
  rw [List.take_take, Nat.min_eq_left (Nat.le_of_lt hlt), ← Reading.chosen_offset ht] at hle
  rwa [Reading.chosen_offset hs]

/-- A section of a name that a chosen section requires is chosen. -/
theorem isChosen_of_required {sections : List Section} {given : List String} {s t : Section}
    {r : String} (hs : s ∈ choose sections given) (hr : r ∈ s.required) (hkey : t.key = lower r) :
    isChosen given (wanted sections given) t = true := by
  obtain ⟨hmem, hchosen⟩ := List.mem_filter.1 hs
  rw [isChosen, Bool.or_eq_true] at hchosen ⊢
  refine hchosen.imp_right fun hamong => ?_
  rw [Section.among, List.contains_iff_mem, mem_wanted_iff] at hamong ⊢
  rw [hkey]
  exact hamong.step ⟨s, hmem, rfl, List.mem_map_of_mem hr⟩

/-- Of two sections of a run, the one whose directive stands earlier is the earlier one. -/
theorem lt_of_number_lt {source : String} {given : List String} {j k : Nat} {o o' : Opening}
    {t t' : Section} (ht' : (declaredTaken source given)[j]? = some (some o', t'))
    (ht : (declaredTaken source given)[k]? = some (some o, t)) (hnumber : o'.number < o.number) :
    j < k := by
  obtain ⟨hj, hjget⟩ := List.getElem?_eq_some_iff.1 ht'
  obtain ⟨hk, hkget⟩ := List.getElem?_eq_some_iff.1 ht
  rcases Nat.lt_trichotomy j k with hlt | rfl | hgt
  · exact hlt
  · cases hjget.symm.trans hkget
    omega
  · have hless := List.pairwise_iff_getElem.1 (declaredTaken_pairwise source given) k j hk hj hgt
    rw [hkget, hjget] at hless
    exact absurd (hless o rfl o' rfl) (by omega)

/-- What a run has placed when it ends are chosen sections in order, all of them if it has a result.
Every chosen section that requires a name has a directive, and an earlier directive opens a section of
that name, in some case.  All sections of that name that hold something are chosen, and have a directive
too.  Of these, one whose directive stands earlier is placed earlier, and ends where the section that
requires it starts or before. -/
theorem prerequisites_first {source : String} {given : List String}
    (hvalid : (Reading.of source).valid = true) :
    (∀ (table : Table) (advisories : List Advisory) (options : Options), options.sections = given →
      ((Reading.of source).assemble table advisories options).placed <+:
          (Reading.of source).chosen given ∧
        ∀ a, ((Reading.of source).assemble table advisories options).result = .ok a →
          a.sections = (Reading.of source).chosen given) ∧
    ∀ (k : Nat) (s : Section) (r : String),
      ((Reading.of source).chosen given)[k]? = some s → r ∈ s.required →
      ∃ (o : Opening) (t : Section), (declaredTaken source given)[k]? = some (some o, t) ∧
        s = { t with offset := s.offset } ∧ o.name = s.name ∧ o.required = s.required ∧
        (∃ o' ∈ openings source, o'.number < o.number ∧ lower o'.name = lower r) ∧
        ∀ d t', (d, t') ∈ declared source → t'.isEmpty = false → lower t'.name = lower r →
          ∃ (o' : Opening) (j : Nat) (s' : Section), d = some o' ∧
            (declaredTaken source given)[j]? = some (some o', t') ∧
            ((Reading.of source).chosen given)[j]? = some s' ∧ s' = { t' with offset := s'.offset } ∧
            (o'.number < o.number → j < k ∧ s'.offset + s'.size ≤ s.offset) := by
  constructor
  · rintro table advisories options rfl
    exact placed_prefix_chosen hvalid table advisories options
  intro k s r hs hr
  have hplaced := hs
  rw [chosen_getElem?_eq hvalid, Option.map_eq_some_iff] at hplaced
  obtain ⟨⟨d, t⟩, htaken, rfl⟩ := hplaced
  have hmem := List.mem_of_getElem? htaken
  have hchosen : t ∈ choose (Reading.of source).program.sections given := by
    rw [← map_snd_declaredTaken hvalid]
    exact List.mem_map_of_mem hmem
  obtain ⟨-, -, hnone⟩ | ⟨o, ho, rfl, hnamed, hrequired⟩ :=
    opening_of_mem_declared (List.mem_of_mem_filter (List.mem_of_mem_filter hmem))
  · rw [show t.required = [] from hnone] at hr
    cases hr
  have hasked : r ∈ o.required := hrequired ▸ hr
  refine ⟨o, t, htaken, rfl, hnamed, hrequired, earlier_opening hvalid ho hasked, ?_⟩
  intro d t' hdeclared hheld hname
  have hmem' : (d, t') ∈ declaredTaken source given :=
    List.mem_filter.2 ⟨List.mem_filter.2 ⟨hdeclared, by simp [Section.holds, hheld]⟩,
      isChosen_of_required hchosen hr hname⟩
  obtain ⟨j, hj⟩ := List.mem_iff_getElem?.1 hmem'
  have hs' := @chosen_getElem?_eq source given hvalid j
  rw [hj, Option.map_some] at hs'
  obtain ⟨-, hdefault, -⟩ | ⟨o', -, rfl, -, -⟩ := opening_of_mem_declared hdeclared
  · rw [hdefault] at hname
    exact absurd hname.symm (required_ne_defaultName ho hasked)
  · refine ⟨o', j, _, rfl, hj, hs', rfl, fun hnumber => ?_⟩
    have hlt := lt_of_number_lt hj htaken hnumber
    exact ⟨hlt, chosen_end_le_offset hs' hs hlt⟩

/-- Two sections of one name in different cases before the section that requires them, and one behind
it. -/
def threeLibraries : String :=
  "section lib\nyield\nsection LIB\nhcf\nyield\nsection main requires Lib\nyield\nsection lib\nhcf"

/-- The section `main` starts behind the first two libraries, and the third one is chosen too. -/
theorem prerequisites_first_threeLibraries :
    (Reading.of threeLibraries).valid = true ∧
      ((Reading.of threeLibraries).chosen ["Main"]).map (fun s => (s.name, s.offset, s.size)) =
        [("lib", 0, 1), ("LIB", 1, 2), ("main", 3, 1), ("lib", 4, 1)] ∧
      ∃ o t, (declaredTaken threeLibraries ["Main"])[2]? = some (some o, t) ∧ o.name = "main" ∧
        ∃ o' ∈ openings threeLibraries, o'.number < o.number ∧ lower o'.name = lower "Lib" := by
  have hvalid : (Reading.of threeLibraries).valid = true := by decide +kernel
  have hmain : ((Reading.of threeLibraries).chosen ["Main"])[2]?.map
      (fun s => (s.name, s.required)) = some ("main", ["Lib"]) := by decide +kernel
  obtain ⟨s, hs, hsaid⟩ := Option.map_eq_some_iff.1 hmain
  obtain ⟨hname, hrequired⟩ := Prod.mk.inj hsaid
  obtain ⟨o, t, htaken, -, hnamed, -, hearlier, -⟩ :=
    (prerequisites_first hvalid).2 2 s "Lib" hs (by simp [hrequired])
  exact ⟨hvalid, by decide +kernel, o, t, htaken, hnamed.trans hname, hearlier⟩

end ChipAsm
