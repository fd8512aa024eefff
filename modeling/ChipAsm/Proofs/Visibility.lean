import Mathlib.Data.List.Nodup
import ChipAsm.Proofs.Numbering
import ChipAsm.Proofs.Ownership

/-!
# Which symbols an instruction sees

No two sections of a program define the same name, so the definition of a name is unique.  Where the
section of the definition stands in a run decides what an instruction gets when it looks the name up:
the symbol if the section is its own or lies before it, and otherwise nothing, with an error that
tells whether the section comes later or was left out.  `lookup_by_standing` says this for every
instruction of a run.

Sections are told apart by their place in the program, since several may have the same name.
-/

namespace ChipAsm

open ChipAsm.Token

/-! ## Unique names -/

theorem fresh_nodup (defined : List Symbol) :
    ∀ {taken : List String}, taken.Nodup →
      (taken ++ (fresh taken defined).map Symbol.name).Nodup := by
  induction defined with
  | nil =>
      intro taken htaken
      simpa [fresh] using htaken
  | cons d rest ih =>
      intro taken htaken
      rw [fresh]
      split
      · exact ih htaken
      · rename_i hnew
        have hnext : (taken ++ [d.name]).Nodup :=
          List.nodup_append.2 ⟨htaken, List.nodup_singleton _, by
            intro a ha b hb
            rw [List.mem_singleton.1 hb]
            exact fun heq => hnew (heq ▸ ha)⟩
        simpa using ih hnext

theorem sectionsBehind_nodup (bs : List Body) :
    ∀ {taken : List String}, taken.Nodup →
      (taken ++ (sectionsBehind taken bs).flatMap fun s => s.symbols.map Symbol.name).Nodup := by
  induction bs with
  | nil =>
      intro taken htaken
      simpa [sectionsBehind] using htaken
  | cons b rest ih =>
      intro taken htaken
      have hnext := fresh_nodup b.definitions htaken
      have hrest := ih hnext
      rw [sectionsBehind, List.flatMap_cons, ← List.append_assoc]
      exact hrest

/-- No name is defined twice in a program. -/
theorem symbolNames_nodup (source : String) :
    (Reading.of source).program.symbolNames.Nodup := by
  have hends := Reader.ends_read source
  have hnodup := sectionsBehind_nodup (bodies source) List.nodup_nil
  rw [← hends.symbolNames] at hnodup
  rw [Reading.of, Reader.reading]
  simp only [Reader.read, Reader.close_symbolNames]
  exact hnodup

theorem defines_iff {s : Section} {name : String} :
    s.defines name = true ↔ name ∈ s.symbols.map Symbol.name := by
  simp only [Section.defines, Section.symbol?, List.find?_isSome, decide_eq_true_eq, List.mem_map]

/-- The section at place `i` defines the name as `d`. -/
def Defines (sections : List Section) (name : String) (i : Nat) (d : Symbol) : Prop :=
  ∃ s, sections[i]? = some s ∧ s.symbol? name = some d

theorem mem_names_of_symbol? {s : Section} {name : String} {d : Symbol}
    (h : s.symbol? name = some d) : name ∈ s.symbols.map Symbol.name := by
  apply defines_iff.1
  rw [Section.defines, h]
  rfl

theorem place_unique {source : String} {name : String} {i i' : Nat} {s s' : Section}
    (hs : (Reading.of source).program.sections[i]? = some s)
    (hs' : (Reading.of source).program.sections[i']? = some s')
    (hname : name ∈ s.symbols.map Symbol.name) (hname' : name ∈ s'.symbols.map Symbol.name) :
    i = i' := by
  have hnodup := symbolNames_nodup source
  rw [symbolNames_eq, List.nodup_flatMap] at hnodup
  have hdisjoint := List.pairwise_iff_getElem.1 hnodup.2
  obtain ⟨hi, rfl⟩ := List.getElem?_eq_some_iff.1 hs
  obtain ⟨hi', rfl⟩ := List.getElem?_eq_some_iff.1 hs'
  rcases Nat.lt_trichotomy i i' with hlt | heq | hgt
  · exact absurd hname' (hdisjoint i i' hi hi' hlt hname)
  · exact heq
  · exact absurd hname (hdisjoint i' i hi' hi hgt hname')

/-- A name has at most one definition in a program. -/
theorem defines_unique {source : String} {name : String} {i i' : Nat} {d d' : Symbol}
    (h : Defines (Reading.of source).program.sections name i d)
    (h' : Defines (Reading.of source).program.sections name i' d') : i = i' ∧ d = d' := by
  obtain ⟨s, hs, hd⟩ := h
  obtain ⟨s', hs', hd'⟩ := h'
  have hplace : i = i' := place_unique hs hs' (mem_names_of_symbol? hd) (mem_names_of_symbol? hd')
  subst hplace
  rw [hs] at hs'
  cases hs'
  rw [hd] at hd'
  exact ⟨rfl, Option.some.inj hd'⟩

theorem mem_symbolNames_iff {source : String} {name : String} :
    name ∈ (Reading.of source).program.symbolNames ↔
      ∃ i d, Defines (Reading.of source).program.sections name i d := by
  rw [symbolNames_eq, List.mem_flatMap]
  constructor
  · rintro ⟨s, hs, hname⟩
    obtain ⟨i, hi⟩ := List.mem_iff_getElem?.1 hs
    obtain ⟨d, hd⟩ := Option.isSome_iff_exists.1 (defines_iff.2 hname)
    exact ⟨i, d, s, hi, hd⟩
  · rintro ⟨i, d, s, hi, hd⟩
    exact ⟨s, List.mem_of_getElem? hi, mem_names_of_symbol? hd⟩

/-! ## Places -/

/-- The places of the elements that a filter keeps, looked up, are these elements. -/
theorem map_getElem?_places {α : Type} (test : α → Bool) :
    ∀ l : List α, ((List.range l.length).filter fun i => (l[i]?).any test).map (fun i => l[i]?) =
      (l.filter test).map some
  | [] => rfl
  | a :: l => by
      have ih := map_getElem?_places test l
      rw [List.length_cons, List.range_succ_eq_map, List.filter_cons, List.filter_map]
      have htail : (fun i => ((a :: l)[i]?).any test) ∘ Nat.succ = fun i => (l[i]?).any test := by
        funext i
        simp
      rw [htail]
      cases ha : test a with
      | true => simp [ha, ← ih, Function.comp_def]
      | false => simp [ha, ← ih, Function.comp_def]

namespace Reading

/-- The places in the program of the sections that a run takes. -/
def places (reading : Reading) (given : List String) : List Nat :=
  chosenPlaces reading.program.sections given

theorem places_nodup (reading : Reading) (given : List String) : (reading.places given).Nodup :=
  List.Nodup.filter _ List.nodup_range

/-- The chosen section `j` is the one at place `j`, moved to its offset. -/
theorem chosen_getElem? (reading : Reading) (given : List String) (j : Nat) :
    (reading.chosen given)[j]? =
      ((reading.places given)[j]?.bind fun i => reading.program.sections[i]?).map fun s =>
        { s with offset := totalSize ((choose reading.program.sections given).take j) } := by
  have hplaces := congrArg (fun l => l[j]?) (map_getElem?_places
    (isChosen given (wanted reading.program.sections given)) reading.program.sections)
  have hchoose : (choose reading.program.sections given)[j]? =
      (reading.places given)[j]?.bind fun i => reading.program.sections[i]? := by
    simp only [List.getElem?_map] at hplaces
    rw [places, chosenPlaces]
    cases hplace : (List.filter (fun i => (reading.program.sections[i]?).any
        (isChosen given (wanted reading.program.sections given)))
        (List.range reading.program.sections.length))[j]? with
    | none =>
        rw [hplace] at hplaces
        simpa [choose] using hplaces.symm
    | some i =>
        rw [hplace] at hplaces
        obtain ⟨s, hs, heq⟩ := Option.map_eq_some_iff.1 hplaces.symm
        exact hs.trans heq
  rw [chosen, layoutFrom_getElem?, hchoose]
  simp

theorem place_of_chosen {reading : Reading} {given : List String} {j : Nat} {t : Section}
    (h : (reading.chosen given)[j]? = some t) :
    ∃ i s, (reading.places given)[j]? = some i ∧ reading.program.sections[i]? = some s ∧
      t = { s with offset := t.offset } := by
  rw [chosen_getElem?, Option.map_eq_some_iff] at h
  obtain ⟨s, hs, rfl⟩ := h
  obtain ⟨i, hi, hs⟩ := Option.bind_eq_some_iff.1 hs
  exact ⟨i, s, hi, hs, rfl⟩

theorem chosen_of_place {reading : Reading} {given : List String} {i j : Nat} {s : Section}
    (hplace : (reading.places given)[j]? = some i)
    (hs : reading.program.sections[i]? = some s) :
    ∃ t, (reading.chosen given)[j]? = some t ∧ t = { s with offset := t.offset } := by
  rw [chosen_getElem?, hplace, Option.bind_some, hs]
  exact ⟨_, rfl, rfl⟩

end Reading

/-! ## Standings -/

/-- Where the definition of a name stands, seen from a section of a run. -/
inductive Standing where
  /-- In the section or one placed before it. -/
  | visible (found : Found)
  /-- In a section placed later. -/
  | later
  /-- In a section that is left out of the run. -/
  | excluded
  /-- Nowhere in the program. -/
  | undefined
deriving Repr, DecidableEq

namespace Standing

/-- The symbol that is seen. -/
def found? : Standing → Option Found
  | .visible found => some found
  | _ => none

/-- The errors of looking the name up. -/
def messages (name : String) (allowsUnknown : Bool) : Standing → List String
  | .visible _ => []
  | .later => ("Use before define of symbol " ++ name) :: unresolved
  | .excluded => (name ++ " not defined in included section") :: unresolved
  | .undefined => unresolved
where
  unresolved : List String :=
    if allowsUnknown then [] else ["Unable to resolve symbol " ++ name]

end Standing

/-- The standing of a name, seen from the chosen section `k`. -/
def Reading.Stands (reading : Reading) (given : List String) (k : Nat) (name : String) :
    Standing → Prop
  | .visible found => ∃ i j t, Defines reading.program.sections name i found.symbol ∧
      (reading.places given)[j]? = some i ∧ j ≤ k ∧
      (reading.chosen given)[j]? = some t ∧ found.offset = t.offset
  | .later => ∃ i j d, Defines reading.program.sections name i d ∧
      (reading.places given)[j]? = some i ∧ k < j
  | .excluded => ∃ i d, Defines reading.program.sections name i d ∧ i ∉ reading.places given
  | .undefined => ∀ i d, ¬ Defines reading.program.sections name i d

/-- The standing of a name that the section at place `i` defines as `d`. -/
def Reading.standingOf (reading : Reading) (given : List String) (k i : Nat) (d : Symbol) :
    Standing :=
  match (reading.chosen given)[(reading.places given).idxOf i]? with
  | some t => if (reading.places given).idxOf i ≤ k then .visible ⟨d, t.offset⟩ else .later
  | none => .excluded

section Standing

variable {source : String} {given : List String} {k : Nat} {name : String}

theorem idxOf_place {reading : Reading} {i j : Nat} (h : (reading.places given)[j]? = some i) :
    (reading.places given).idxOf i = j := by
  obtain ⟨hlt, rfl⟩ := List.getElem?_eq_some_iff.1 h
  exact (reading.places_nodup given).idxOf_getElem j hlt

theorem exists_chosen {reading : Reading} {i j : Nat} {d : Symbol}
    (hd : Defines reading.program.sections name i d)
    (hj : (reading.places given)[j]? = some i) : ∃ t, (reading.chosen given)[j]? = some t := by
  obtain ⟨s, hs, -⟩ := hd
  obtain ⟨t, ht, -⟩ := Reading.chosen_of_place hj hs
  exact ⟨t, ht⟩

/-- A name has a standing. -/
theorem exists_stands (source : String) (given : List String) (k : Nat) (name : String) :
    ∃ st, (Reading.of source).Stands given k name st := by
  by_cases hdefined : ∃ i d, Defines (Reading.of source).program.sections name i d
  · obtain ⟨i, d, hd⟩ := hdefined
    by_cases hplace : i ∈ (Reading.of source).places given
    · obtain ⟨j, hj⟩ := List.mem_iff_getElem?.1 hplace
      by_cases hle : j ≤ k
      · obtain ⟨t, ht⟩ := exists_chosen hd hj
        exact ⟨.visible ⟨d, t.offset⟩, i, j, t, hd, hj, hle, ht, rfl⟩
      · exact ⟨.later, i, j, d, hd, hj, Nat.lt_of_not_le hle⟩
    · exact ⟨.excluded, i, d, hd, hplace⟩
  · exact ⟨.undefined, fun i d hd => hdefined ⟨i, d, hd⟩⟩

theorem stands_eq_of_defines {st : Standing} {i : Nat} {d : Symbol}
    (hd : Defines (Reading.of source).program.sections name i d)
    (h : (Reading.of source).Stands given k name st) :
    st = (Reading.of source).standingOf given k i d := by
  cases st with
  | visible found =>
      obtain ⟨i', j, t, hd', hj, hle, ht, hoffset⟩ := h
      obtain ⟨rfl, rfl⟩ := defines_unique hd hd'
      rw [Reading.standingOf, idxOf_place hj, ht]
      simp only [hle, if_true, ← hoffset]
  | later =>
      obtain ⟨i', j, d', hd', hj, hlt⟩ := h
      obtain ⟨rfl, rfl⟩ := defines_unique hd hd'
      obtain ⟨t, ht⟩ := exists_chosen hd hj
      rw [Reading.standingOf, idxOf_place hj, ht]
      simp only [Nat.not_le.2 hlt, if_false]
  | excluded =>
      obtain ⟨i', d', hd', hplace⟩ := h
      obtain ⟨rfl, rfl⟩ := defines_unique hd hd'
      rw [Reading.standingOf, List.idxOf_eq_length hplace, Reading.chosen_getElem?]
      simp
  | undefined => exact absurd hd (h i d)

theorem stands_eq_of_not_defines {st : Standing}
    (hnone : ∀ i d, ¬ Defines (Reading.of source).program.sections name i d)
    (h : (Reading.of source).Stands given k name st) : st = .undefined := by
  cases st with
  | visible found =>
      obtain ⟨i, j, t, hd, -⟩ := h
      exact absurd hd (hnone i _)
  | later =>
      obtain ⟨i, j, d, hd, -⟩ := h
      exact absurd hd (hnone i d)
  | excluded =>
      obtain ⟨i, d, hd, -⟩ := h
      exact absurd hd (hnone i d)
  | undefined => rfl

/-- A name has only one standing. -/
theorem stands_unique {st st' : Standing} (h : (Reading.of source).Stands given k name st)
    (h' : (Reading.of source).Stands given k name st') : st = st' := by
  by_cases hdefined : ∃ i d, Defines (Reading.of source).program.sections name i d
  · obtain ⟨i, d, hd⟩ := hdefined
    rw [stands_eq_of_defines hd h, stands_eq_of_defines hd h']
  · have hnone : ∀ i d, ¬ Defines (Reading.of source).program.sections name i d :=
      fun i d hd => hdefined ⟨i, d, hd⟩
    rw [stands_eq_of_not_defines hnone h, stands_eq_of_not_defines hnone h']

/-! ## Looking up -/

/-- A symbol of a section that is placed there is visible. -/
theorem stands_of_chosen {j : Nat} {t : Section} {d : Symbol}
    (ht : ((Reading.of source).chosen given)[j]? = some t) (hle : j ≤ k)
    (hd : t.symbol? name = some d) :
    (Reading.of source).Stands given k name (.visible ⟨d, t.offset⟩) := by
  obtain ⟨i, s, hi, hs, heq⟩ := Reading.place_of_chosen ht
  refine ⟨i, j, t, ⟨s, hs, ?_⟩, hi, hle, ht, rfl⟩
  rw [heq] at hd
  exact hd

/-- What is found in a scope is defined by a section that was placed there. -/
theorem find?_eq_some {found : Found}
    (h : ((Reading.of source).scopeAt given k).find? name = some found) :
    (Reading.of source).Stands given k name (.visible found) := by
  obtain ⟨t, ht, hd, hoffset⟩ :=
    ((chosen_housed source given).sublist (List.take_sublist _ _)).exists_of_find? h
  obtain ⟨j, hle, hj⟩ := getElem?_of_mem_take ht
  have hstands := stands_of_chosen hj hle hd
  rwa [← hoffset] at hstands

theorem find?_of_visible {found : Found}
    (h : (Reading.of source).Stands given k name (.visible found)) :
    ((Reading.of source).scopeAt given k).find? name = some found := by
  have hsome : (((Reading.of source).scopeAt given k).find? name).isSome = true := by
    obtain ⟨i, j, t, ⟨s, hs, hd⟩, hj, hle, ht, -⟩ := h
    obtain ⟨t', ht', heq⟩ := Reading.chosen_of_place hj hs
    rw [ht] at ht'
    cases ht'
    rw [Scope.find?, Option.isSome_map, List.findSome?_isSome_iff]
    refine ⟨t, ?_, ?_⟩
    · refine List.mem_of_getElem? (i := j) ?_
      rw [Reading.scopeAt, List.getElem?_take_of_lt (Nat.lt_succ_of_le hle)]
      exact ht
    · have hsymbol : t.symbol? name = some found.symbol := by
        rw [heq]
        exact hd
      rw [hsymbol]
      rfl
  obtain ⟨found', hfound'⟩ := Option.isSome_iff_exists.1 hsome
  have hsame := stands_unique h (find?_eq_some hfound')
  cases hsame
  exact hfound'

/-- Looking a name up gives what its standing says. -/
theorem find?_of_stands {st : Standing} (h : (Reading.of source).Stands given k name st) :
    ((Reading.of source).scopeAt given k).find? name = st.found? := by
  cases hfind : ((Reading.of source).scopeAt given k).find? name with
  | some found =>
      rw [stands_unique h (find?_eq_some hfind)]
      rfl
  | none =>
      cases st with
      | visible found =>
          rw [find?_of_visible h] at hfind
          cases hfind
      | later => rfl
      | excluded => rfl
      | undefined => rfl

theorem any_defines_iff :
    (((Reading.of source).chosen given).any (·.defines name) = true) ↔
      ∃ i d, Defines (Reading.of source).program.sections name i d ∧
        i ∈ (Reading.of source).places given := by
  rw [List.any_eq_true]
  constructor
  · rintro ⟨t, ht, hdefines⟩
    obtain ⟨d, hd⟩ := Option.isSome_iff_exists.1 hdefines
    obtain ⟨j, hj⟩ := List.mem_iff_getElem?.1 ht
    obtain ⟨i, s, hi, hs, heq⟩ := Reading.place_of_chosen hj
    refine ⟨i, d, ⟨s, hs, ?_⟩, List.mem_of_getElem? hi⟩
    rw [heq] at hd
    exact hd
  · rintro ⟨i, d, ⟨s, hs, hd⟩, hplace⟩
    obtain ⟨j, hj⟩ := List.mem_iff_getElem?.1 hplace
    obtain ⟨t, ht, heq⟩ := Reading.chosen_of_place hj hs
    refine ⟨t, List.mem_of_getElem? ht, ?_⟩
    rw [heq]
    exact Option.isSome_iff_exists.2 ⟨d, hd⟩

theorem missing_messages (scope : Scope) (name : String) (allowsUnknown : Bool) :
    (scope.missing name allowsUnknown).map Problem.message =
      (scope.hidden name).map Problem.message ++ Standing.messages.unresolved name allowsUnknown := by
  rw [Scope.missing, List.map_append]
  cases allowsUnknown <;> rfl

/-- A name that is not found is reported as its standing says. -/
theorem missing_of_stands {st : Standing} (h : (Reading.of source).Stands given k name st)
    (hfind : st.found? = none) (allowsUnknown : Bool) :
    (((Reading.of source).scopeAt given k).missing name allowsUnknown).map Problem.message =
      st.messages name allowsUnknown := by
  rw [missing_messages, Scope.hidden]
  cases st with
  | visible found => cases hfind
  | later =>
      obtain ⟨i, j, d, hd, hj, -⟩ := h
      have hname : name ∈ ((Reading.of source).scopeAt given k).symbolNames :=
        mem_symbolNames_iff.2 ⟨i, d, hd⟩
      have hchosen : ((Reading.of source).scopeAt given k).chosen.any (·.defines name) = true :=
        any_defines_iff.2 ⟨i, d, hd, List.mem_of_getElem? hj⟩
      rw [if_pos hname, if_pos hchosen]
      rfl
  | excluded =>
      obtain ⟨i, d, hd, hplace⟩ := h
      have hname : name ∈ ((Reading.of source).scopeAt given k).symbolNames :=
        mem_symbolNames_iff.2 ⟨i, d, hd⟩
      have hchosen : ¬ ((Reading.of source).scopeAt given k).chosen.any (·.defines name) = true := by
        intro hdefines
        obtain ⟨i', d', hd', hplace'⟩ := any_defines_iff.1 hdefines
        exact hplace ((defines_unique hd hd').1 ▸ hplace')
      rw [if_pos hname, if_neg hchosen]
      rfl
  | undefined =>
      have hname : name ∉ ((Reading.of source).scopeAt given k).symbolNames := by
        intro hmem
        obtain ⟨i, d, hd⟩ := mem_symbolNames_iff.1 hmem
        exact h i d hd
      rw [if_neg hname]
      rfl

/-- Looking a word up records what its standing says. -/
theorem lookupProblems_of_stands {st : Standing} (h : (Reading.of source).Stands given k name st)
    (hword : Shape.of name = .word) (allowsUnknown : Bool) :
    (((Reading.of source).scopeAt given k).lookupProblems name allowsUnknown).map Problem.message =
      st.messages name allowsUnknown := by
  simp only [Scope.lookupProblems, hword, find?_of_stands h]
  cases hfound : st.found? with
  | none => exact missing_of_stands h hfound allowsUnknown
  | some found =>
      cases st with
      | visible found => rfl
      | later => cases hfound
      | excluded => cases hfound
      | undefined => cases hfound

end Standing

/-! ## Errors of looking up -/

/-- The problem is one of looking a name up. -/
def Problem.isLookup : Problem → Bool
  | .useBeforeDefine _ => true
  | .notIncluded _ => true
  | .unresolved _ => true
  | _ => false

/-- The name that is looked up for a token at a place. -/
def Scope.lookedUp (scope : Scope) (token : String) (c : Constraint) : String :=
  if c.substitutes then scope.unalias token else token

section Lookup

variable {options : Options} {scope : Scope} {address : Int}

theorem lookupProblems_isLookup (scope : Scope) (name : String) (allowsUnknown : Bool) :
    ∀ p ∈ scope.lookupProblems name allowsUnknown, p.isLookup = true := by
  intro p hp
  rw [Scope.lookupProblems] at hp
  split at hp
  · split at hp
    · cases hp
    · rw [Scope.missing, Scope.hidden] at hp
      rcases List.mem_append.1 hp with hp | hp
      · split at hp
        · split at hp <;> (rw [List.mem_singleton.1 hp]; rfl)
        · cases hp
      · split at hp
        · cases hp
        · rw [List.mem_singleton.1 hp]
          rfl
  · cases hp

theorem relativeTo_isLookup {text : String} {r : Resolved} (h : relativeTo address text = .ok r) :
    ∀ p ∈ r.problems, p.isLookup = false := by
  intro p hp
  rw [relativeTo] at h
  split at h
  · obtain ⟨n, -, h⟩ := bind_eq_ok.1 h
    obtain ⟨distance, -, rfl⟩ := map_eq_ok.1 h
    cases hp
  · cases h
    dsimp only at hp
    split at hp
    · cases hp
    · rw [List.mem_singleton.1 hp]
      rfl

/-- An operand is classified by its name, and made relative where the place asks for that. -/
theorem resolveOperand_eq (token : String) (c : Constraint) :
    resolveOperand options scope address token c =
      (Operand.classify (scope.lookedUp token c) scope.find? c.substitutes).bind fun operand =>
        (if c.isRelative then
            relativeTo address (if options.keepCalls then operand.text else expand operand.text)
          else .ok ⟨[], if options.keepCalls then operand.text else expand operand.text⟩).map
            fun relative =>
              ⟨scope.lookupProblems (scope.lookedUp token c) c.allowsUnknown
                ++ (if operand.satisfies c then [] else [.operandKind]) ++ relative.problems,
              relative.text⟩ := by
  rw [resolveOperand]
  refine congrArg _ (funext fun operand => ?_)
  cases hc : c.isRelative with
  | false =>
      simp only [Bool.false_eq_true, if_false, Except.map, List.append_nil]
      rfl
  | true => rfl

theorem resolveOperand_eq_ok {token : String} {c : Constraint} {r : Resolved}
    (h : resolveOperand options scope address token c = .ok r) :
    ∃ operand relative,
      Operand.classify (scope.lookedUp token c) scope.find? c.substitutes = .ok operand ∧
      (if c.isRelative then
          relativeTo address (if options.keepCalls then operand.text else expand operand.text)
        else .ok ⟨[], if options.keepCalls then operand.text else expand operand.text⟩) =
        .ok relative ∧
      r = ⟨scope.lookupProblems (scope.lookedUp token c) c.allowsUnknown
          ++ (if operand.satisfies c then [] else [.operandKind]) ++ relative.problems,
        relative.text⟩ := by
  rw [resolveOperand_eq] at h
  obtain ⟨operand, hclassify, h⟩ := bind_eq_ok.1 h
  obtain ⟨relative, hrelative, rfl⟩ := map_eq_ok.1 h
  exact ⟨operand, relative, hclassify, hrelative, rfl⟩

/-- The lookup errors of an operand are those of looking its name up. -/
theorem resolveOperand_lookup {token : String} {c : Constraint} {r : Resolved}
    (h : resolveOperand options scope address token c = .ok r) :
    r.problems.filter Problem.isLookup =
      scope.lookupProblems (scope.lookedUp token c) c.allowsUnknown := by
  obtain ⟨operand, relative, -, hrelative, rfl⟩ := resolveOperand_eq_ok h
  have hlookup := List.filter_eq_self.2
    (lookupProblems_isLookup scope (scope.lookedUp token c) c.allowsUnknown)
  have hkind : ∀ allowed : Bool,
      (if allowed then [] else [Problem.operandKind]).filter Problem.isLookup = [] := by decide
  have hnone : relative.problems.filter Problem.isLookup = [] := by
    split at hrelative
    · exact List.filter_eq_nil_iff.2 fun p hp => by simp [relativeTo_isLookup hrelative p hp]
    · cases hrelative
      rfl
  rw [List.filter_append, List.filter_append, hlookup, hkind, hnone, List.append_nil,
    List.append_nil]

theorem resolveOperands_lookup {places : List (String × Constraint)} {resolved : List Resolved}
    (h : resolveOperands options scope address places = .ok resolved) :
    (resolved.flatMap Resolved.problems).filter Problem.isLookup =
      places.flatMap fun place =>
        scope.lookupProblems (scope.lookedUp place.1 place.2) place.2.allowsUnknown := by
  have hforall := resolveOperands_forall₂ h
  clear h
  induction hforall with
  | nil => rfl
  | cons hfirst _ ih =>
      rw [List.flatMap_cons, List.filter_append, List.flatMap_cons, resolveOperand_lookup hfirst, ih]

theorem assembleLine_lookup {table : Table} {offset : Nat} {l : Instruction} {o : Outcome}
    {signature : Signature} (h : assembleLine table options scope offset l = .ok o)
    (hsignature : table.lookup l.opcode = some signature)
    (harity : signature.arity = l.operands.length) :
    o.problems.filter Problem.isLookup =
      (l.operands.zip signature.constraints).flatMap fun place =>
        scope.lookupProblems (scope.lookedUp place.1 place.2) place.2.allowsUnknown := by
  simp only [assembleLine, hsignature, harity, ne_eq, not_true_eq_false, if_false] at h
  obtain ⟨resolved, hresolved, rfl⟩ := map_eq_ok.1 h
  exact resolveOperands_lookup hresolved

end Lookup

/-! ## Errors of a run -/

/-- The errors that a result records at a source line. -/
def Assembly.errorsAt (a : Assembly) (line : Nat) : List Problem :=
  (a.diagnostics.errors.filter fun remark => remark.line = some (line : Int)).map Remark.problem

theorem remarks_at (problems : List Problem) (n line : Nat) :
    ((problems.map fun p => (⟨p, some (n : Int)⟩ : Remark)).filter
        fun remark => remark.line = some (line : Int)).map Remark.problem =
      if n = line then problems else [] := by
  by_cases h : n = line
  · simp [List.filter_map, Function.comp_def, h]
  · have hcast : (n : Int) ≠ line := by omega
    simp [List.filter_map, Function.comp_def, h, hcast]

theorem errorsOf_at {outcomes : List Outcome} {o : Outcome}
    (hdistinct : outcomes.Pairwise
      fun o o' => o.instruction.sourceLine < o'.instruction.sourceLine) (ho : o ∈ outcomes) :
    ((errorsOf outcomes).filter
        fun remark => remark.line = some (o.instruction.sourceLine : Int)).map Remark.problem =
      o.problems := by
  induction outcomes with
  | nil => cases ho
  | cons first rest ih =>
      obtain ⟨hfirst, hrest⟩ := List.pairwise_cons.1 hdistinct
      simp only [errorsOf, List.flatMap_cons, List.filter_append, List.map_append, remarks_at]
      rcases List.mem_cons.1 ho with rfl | ho
      · have hnone : (errorsOf rest).filter
            (fun remark => remark.line = some (o.instruction.sourceLine : Int)) = [] := by
          rw [List.filter_eq_nil_iff]
          intro remark hremark
          obtain ⟨o', ho', hremark⟩ := List.mem_flatMap.1 hremark
          obtain ⟨p, -, rfl⟩ := List.mem_map.1 hremark
          have hlt := hfirst o' ho'
          simp only [decide_eq_true_eq, Option.some.injEq]
          omega
        rw [if_pos rfl, ← errorsOf, hnone, List.map_nil, List.append_nil]
      · rw [if_neg (Nat.ne_of_lt (hfirst o ho)), List.nil_append]
        exact ih hrest ho

/-- A finished run of a source without errors records at the line of an instruction what is wrong
with it. -/
theorem errorsAt_of_assemble {source : String} {table : Table} {advisories : List Advisory}
    {options : Options} {a : Assembly} {k : Nat} {s : Section} {l : Instruction}
    (hvalid : (Reading.of source).valid = true)
    (hrun : ((Reading.of source).assemble table advisories options).result = .ok a)
    (hs : ((Reading.of source).chosen options.sections)[k]? = some s) (hl : l ∈ s.lines) :
    ∃ o, assembleLine table options ((Reading.of source).scopeAt options.sections k) s.offset l =
        .ok o ∧ a.errorsAt l.sourceLine = o.problems := by
  obtain ⟨outcomes, houtcomes, rfl⟩ := Reading.assemble_result hvalid hrun
  obtain ⟨p, hp⟩ := List.mem_iff_getElem?.1 hl
  obtain ⟨o, ho, hline⟩ := outcomes_at houtcomes hs hp
  refine ⟨o, hline, ?_⟩
  have hdistinct := chosen_sourceLines source options.sections
  rw [← outcomes_instructions houtcomes, List.pairwise_map] at hdistinct
  have herrors := errorsOf_at hdistinct (List.mem_of_getElem? ho)
  rw [assembleLine_instruction hline] at herrors
  have hread : (Reading.of source).diagnostics.errors = [] := List.isEmpty_iff.1 hvalid
  rw [Assembly.errorsAt]
  simp only [Assembly.ofOutcomes, Diagnostics.merge, hread, List.nil_append]
  exact herrors

/-! ## Lookup by standing -/

/-- The instruction `l` of the chosen section `k` looks names up by their standing: the standing of
a name is the given one and no other, the name stands for what is seen there, and the lookup errors
are those of the standing, for an operand by itself and for the instruction in a finished run.  Only
words are looked up. -/
structure Reading.LooksUpBy (reading : Reading) (options : Options) (k : Nat) (l : Instruction)
    (standing : String → Standing) : Prop where
  /-- Every name has exactly one standing. -/
  stands : ∀ name st, reading.Stands options.sections k name st ↔ st = standing name
  /-- A name stands for what its standing tells. -/
  found : ∀ name, (reading.scopeAt options.sections k).find? name = (standing name).found?
  /-- An operand that is looked up records what the standing of its name tells. -/
  operand : ∀ address token c r name,
    resolveOperand options (reading.scopeAt options.sections k) address token c = .ok r →
    name = (reading.scopeAt options.sections k).lookedUp token c → Shape.of name = .word →
      (r.problems.filter Problem.isLookup).map Problem.message =
        (standing name).messages name c.allowsUnknown
  /-- A run records at the line of the instruction what its operands record, one after another. -/
  recorded : ∀ table advisories a signature,
    (reading.assemble table advisories options).result = .ok a →
    table.lookup l.opcode = some signature → signature.arity = l.operands.length →
      ((a.errorsAt l.sourceLine).filter Problem.isLookup).map Problem.message =
        (l.operands.zip signature.constraints).flatMap fun place =>
          let name := (reading.scopeAt options.sections k).lookedUp place.1 place.2
          if Shape.of name = .word then (standing name).messages name place.2.allowsUnknown else []

/-- Every instruction of a run of a source without errors looks names up by their standing. -/
theorem lookup_by_standing {source : String} {options : Options} {k : Nat} {s : Section}
    {l : Instruction} (hvalid : (Reading.of source).valid = true)
    (hs : ((Reading.of source).chosen options.sections)[k]? = some s) (hl : l ∈ s.lines) :
    ∃ standing, (Reading.of source).LooksUpBy options k l standing := by
  choose standing hstanding using exists_stands source options.sections k
  have hmessages : ∀ name allowsUnknown,
      (((Reading.of source).scopeAt options.sections k).lookupProblems name allowsUnknown).map
          Problem.message =
        if Shape.of name = .word then (standing name).messages name allowsUnknown else [] := by
    intro name allowsUnknown
    split
    · rename_i hword
      exact lookupProblems_of_stands (hstanding name) hword allowsUnknown
    · rename_i hword
      rw [Scope.lookupProblems]
      split
      · contradiction
      · rfl
  refine ⟨standing, ⟨?_, ?_, ?_, ?_⟩⟩
  · intro name st
    constructor
    · exact fun h => stands_unique h (hstanding name)
    · rintro rfl
      exact hstanding name
  · exact fun name => find?_of_stands (hstanding name)
  · rintro address token c r name hr rfl hword
    rw [resolveOperand_lookup hr, hmessages, if_pos hword]
  · intro table advisories a signature hrun hsignature harity
    obtain ⟨o, hline, herrors⟩ := errorsAt_of_assemble hvalid hrun hs hl
    rw [herrors, assembleLine_lookup hline hsignature harity, List.map_flatMap]
    simp only [hmessages]

/-- A jump to a label of a later section. -/
def forwardJump : String := "j there\nsection rest\nthere: yield"

theorem lookup_by_standing_forwardJump :
    (Reading.of forwardJump).valid = true ∧
    ((Reading.of forwardJump).chosen [])[0]? =
      some ⟨"(default)", 0, [], [], [], [⟨"j", ["there"], 0, 0, none⟩], 0⟩ ∧
    ∃ standing, (Reading.of forwardJump).LooksUpBy {} 0 ⟨"j", ["there"], 0, 0, none⟩ standing := by
  have hvalid : (Reading.of forwardJump).valid = true := by decide +kernel
  have hs : ((Reading.of forwardJump).chosen [])[0]? =
      some ⟨"(default)", 0, [], [], [], [⟨"j", ["there"], 0, 0, none⟩], 0⟩ := by decide +kernel
  exact ⟨hvalid, hs, @lookup_by_standing forwardJump {} 0 _ _ hvalid hs (List.mem_singleton_self _)⟩

end ChipAsm
