import Mathlib.Data.List.Nodup
import ChipAsm.Proofs.Contents

/-!
# The section of a symbol

A symbol knows its section by the ordinal of the section that was open where the symbol was made.
Sections are housed if they are numbered in order, and every symbol has the number of the section that
holds it.  Then the section that a symbol belongs to is the one that holds it, and no
other (`Housed.eq_of_home`).

The bodies of a source are numbered in order, so the sections of its program are housed
(`sections_housed`), and so are those of a run (`chosen_housed`).  A run takes the offset of a label
from the section that the label belongs to.  In housed sections that is the offset of the section
where the label was found (`Housed.exists_of_find?`).
-/

namespace ChipAsm

/-! ## Housed sections -/

/-- The sections are numbered in order, and every symbol belongs to the section that holds it. -/
structure Housed (sections : List Section) : Prop where
  increase : sections.Pairwise fun s t => s.ordinal < t.ordinal
  home : ∀ s ∈ sections, ∀ d ∈ s.symbols, d.home = s.ordinal

/-- An element is found by its key if no other one has this key. -/
theorem find?_key {α κ : Type} [DecidableEq κ] {key : α → κ} {l : List α} {a : α}
    (h : (l.map key).Nodup) (ha : a ∈ l) : l.find? (fun b => key b = key a) = some a := by
  induction l with
  | nil => cases ha
  | cons b l ih =>
      rw [List.map_cons, List.nodup_cons] at h
      rcases List.mem_cons.1 ha with rfl | ha
      · exact List.find?_cons_of_pos (decide_eq_true rfl)
      · have hne : key b ≠ key a := fun heq => h.1 (heq ▸ List.mem_map_of_mem ha)
        rw [List.find?_cons_of_neg (by simpa using hne)]
        exact ih h.2 ha

namespace Housed

variable {sections : List Section} {s t : Section} {d : Symbol}

theorem nodup (h : Housed sections) : (sections.map Section.ordinal).Nodup :=
  List.pairwise_map.2 (h.increase.imp fun hlt => Nat.ne_of_lt hlt)

theorem sublist {some : List Section} (h : Housed sections) (hsub : some.Sublist sections) :
    Housed some :=
  ⟨h.increase.sublist hsub, fun s hs => h.home s (hsub.subset hs)⟩

/-- The section that a symbol belongs to is the one that holds it. -/
theorem eq_of_home (h : Housed sections) (hs : s ∈ sections) (hd : d ∈ s.symbols) (ht : t ∈ sections)
    (hhome : t.ordinal = d.home) : t = s :=
  List.inj_on_of_nodup_map h.nodup ht hs (hhome.trans (h.home s hs d hd))

/-- The offset of the section that a symbol belongs to is that of the section that holds it. -/
theorem offsetOf {scope : Scope} (h : Housed scope.visible) (hs : s ∈ scope.visible)
    (hd : d ∈ s.symbols) : scope.offsetOf d.home = s.offset := by
  rw [Scope.offsetOf, h.home s hs d hd, find?_key h.nodup hs]
  rfl

end Housed

/-- A symbol is found with the offset of the section that it belongs to. -/
theorem Scope.exists_of_find? {scope : Scope} {name : String} {found : Found}
    (h : scope.find? name = some found) :
    ∃ s ∈ scope.visible, s.symbol? name = some found.symbol ∧
      found.offset = scope.offsetOf found.symbol.home := by
  obtain ⟨d, hd, rfl⟩ := Option.map_eq_some_iff.1 h
  obtain ⟨s, hs, hsymbol⟩ := List.exists_of_findSome?_eq_some hd
  exact ⟨s, hs, hsymbol, rfl⟩

/-- A symbol is found with the offset of the section that holds it. -/
theorem Housed.exists_of_find? {scope : Scope} {name : String} {found : Found}
    (hhoused : Housed scope.visible) (h : scope.find? name = some found) :
    ∃ s ∈ scope.visible, s.symbol? name = some found.symbol ∧ found.offset = s.offset := by
  obtain ⟨s, hs, hsymbol, hoffset⟩ := Scope.exists_of_find? h
  refine ⟨s, hs, hsymbol, ?_⟩
  rw [hoffset, hhoused.offsetOf hs (List.mem_of_find?_eq_some hsymbol)]

/-! ## The sections of a source -/

/-- Bodies are numbered from the first one on. -/
theorem ordinals_bodiesFrom (ls : List SourceLine) :
    ∀ b : Body, (bodiesFrom b ls).map Body.ordinal =
      List.range' b.ordinal (bodiesFrom b ls).length := by
  induction ls with
  | nil => exact fun _ => rfl
  | cons l ls ih =>
      intro b
      rw [bodiesFrom]
      cases l.line.statement.opening? with
      | none => exact ih (b.push l)
      | some opened => simp only [List.map_cons, List.length_cons, List.range'_succ, ih]

/-- A line defines its symbol for the section that it stands in. -/
theorem Statement.home_of_symbol? {statement : Statement} {home position : Nat} {d : Symbol}
    (h : statement.symbol? home position = some d) : d.home = home := by
  cases statement with
  | constant name value =>
      cases h
      rfl
  | code label opcode operands =>
      cases label with
      | none => cases h
      | some name =>
          cases h
          rfl
  | binding name target => cases h
  | opening name required => cases h
  | faulty => cases h

/-- The sections of a program are numbered in order, though not without gaps, since one that holds
nothing has its number too.  A symbol has the number of its section. -/
theorem sections_housed (source : String) : Housed (Reading.of source).program.sections := by
  have hordinals : (sectionsBehind [] (bodies source)).map Section.ordinal =
      List.range' 0 (bodies source).length := by
    rw [sectionsBehind_map (g := Body.ordinal) fun _ _ => rfl, bodies, ordinals_bodiesFrom]
  constructor
  · rw [sections_eq]
    refine List.Pairwise.filter _ (List.pairwise_map.1 ?_)
    rw [hordinals]
    exact List.pairwise_lt_range'
  · intro s hs d hd
    obtain ⟨b, hb⟩ := exists_isSectionOf hs
    obtain ⟨before, l, after, -, hl, -⟩ := first_definition hb hd
    exact Statement.home_of_symbol? hl

/-- Placing sections changes neither their ordinals nor their symbols. -/
theorem Housed.layoutFrom {sections : List Section} (h : Housed sections) (next : Nat) :
    Housed (ChipAsm.layoutFrom next sections) := by
  constructor
  · have hincrease := List.pairwise_map.2 h.increase
    rw [← map_layoutFrom (fun _ _ => rfl) sections next] at hincrease
    exact List.pairwise_map.1 hincrease
  · intro s hs d hd
    obtain ⟨k, hk⟩ := List.mem_iff_getElem?.1 hs
    rw [layoutFrom_getElem?, Option.map_eq_some_iff] at hk
    obtain ⟨s', hs', rfl⟩ := hk
    exact h.home s' (List.mem_of_getElem? hs') d hd

theorem chosen_housed (source : String) (given : List String) :
    Housed ((Reading.of source).chosen given) :=
  ((sections_housed source).sublist List.filter_sublist).layoutFrom 0

end ChipAsm
