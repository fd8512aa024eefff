import Mathlib.Data.List.Dedup
import Mathlib.Data.List.Perm.Subperm
import Mathlib.Order.Bounds.Basic
import ChipAsm.Proofs.Selection

/-!
# Closing a selection name by name

The names that a run wants can be found with a list of work.  A pending name is taken out, whichever,
and what the sections of that name require is wanted from then on.  A name that was not wanted before
becomes pending.  The loop ends when nothing is pending.

`Worklist.Sound` is what every turn keeps: a wanted name is reached from the given ones, and the
requirements of a name that is wanted and no longer pending are wanted.  Every turn takes out one name
and no name becomes pending twice, so there are as many turns as names wanted in the end, and these are
given or required by some section.

Hence the order in which names are taken out does not matter, nor does that of the given names: the loop
always ends with the least set of names that is closed under requirements, and the sections of these
names, in the order of the program, are those that `choose` takes (`choose_least_closure`).
-/

namespace ChipAsm

open ChipAsm.Text

/-- The names hold the given ones, and all that a section with one of the names requires. -/
structure ClosedUnder (sections : List Section) (given : List String) (names : Set String) :
    Prop where
  given : ∀ name ∈ given, lower name ∈ names
  required : ∀ s ∈ sections, s.key ∈ names → ∀ name ∈ s.required, lower name ∈ names

/-- The names that are reached are the least closed set. -/
theorem isLeast_reaches (sections : List Section) (given : List String) :
    IsLeast {names | ClosedUnder sections given names}
      {name | Reaches (Requires sections) given name} := by
  constructor
  · constructor
    · exact fun name hname => ⟨name, hname, .refl⟩
    · intro s hs hkey name hname
      exact Reaches.step hkey ⟨s, hs, rfl, List.mem_map_of_mem hname⟩
  · rintro names hclosed name ⟨g, hg, hpath⟩
    induction hpath with
    | refl => exact hclosed.given g hg
    | tail _ hrequires ih =>
        obtain ⟨s, hs, rfl, hname⟩ := hrequires
        obtain ⟨r, hr, rfl⟩ := List.mem_map.1 hname
        exact hclosed.required s hs ih r hr

theorem Reaches.congr {edge : String → String → Prop} {given given' : List String} {name : String}
    (hsame : ∀ name, name ∈ given.map lower → name ∈ given'.map lower)
    (h : Reaches edge given name) : Reaches edge given' name := by
  obtain ⟨g, hg, hpath⟩ := h
  obtain ⟨g', hg', hlower⟩ := List.mem_map.1 (hsame _ (List.mem_map_of_mem hg))
  exact ⟨g', hg', hlower ▸ hpath⟩

/-- All names that can be wanted: the given ones, and those that some section requires. -/
def allNames (sections : List Section) (given : List String) : List String :=
  given.map lower ++ sections.flatMap fun s => s.required.map lower

theorem mem_allNames_of_reaches {sections : List Section} {given : List String} {name : String}
    (h : Reaches (Requires sections) given name) : name ∈ allNames sections given := by
  obtain ⟨g, hg, hpath⟩ := h
  rw [allNames, List.mem_append]
  cases hpath with
  | refl => exact .inl (List.mem_map_of_mem hg)
  | tail _ hrequires =>
      obtain ⟨s, hs, -, hname⟩ := hrequires
      exact .inr (List.mem_flatMap.2 ⟨s, hs, hname⟩)

/-! ## The loop -/

/-- How far the loop has come. -/
structure Worklist where
  /-- The names that are wanted. -/
  wanted : List String
  /-- The wanted names whose requirements have not been looked at. -/
  pending : List String
deriving Repr, DecidableEq

namespace Worklist

/-- A name is wanted; it becomes pending if it was not wanted before. -/
def want (w : Worklist) (name : String) : Worklist :=
  if name ∈ w.wanted then w else ⟨w.wanted ++ [name], w.pending ++ [name]⟩

/-- Goes through all sections, and wants what those of the given name require. -/
def expand (sections : List Section) (w : Worklist) (name : String) : Worklist :=
  sections.foldl
    (fun w s => if s.key = name then (s.required.map lower).foldl want w else w) w

/-- The loop starts with every given name wanted and pending once, in any order. -/
structure Starts (given : List String) (w : Worklist) : Prop where
  wanted : ∀ name, name ∈ w.wanted ↔ name ∈ given.map lower
  nodup : w.wanted.Nodup
  pending : w.pending.Perm w.wanted

/-- A turn of the loop takes out some pending name and expands it. -/
inductive Turn (sections : List Section) : Worklist → Worklist → Prop where
  | take {wanted before after : List String} {name : String} :
    Turn sections ⟨wanted, before ++ name :: after⟩ (expand sections ⟨wanted, before ++ after⟩ name)

/-- Turns of the loop in a row. -/
inductive Turns (sections : List Section) (w : Worklist) : Nat → Worklist → Prop where
  | start : Turns sections w 0 w
  | next {n : Nat} {w' w'' : Worklist} (h : Turns sections w n w') (hturn : Turn sections w' w'') :
    Turns sections w (n + 1) w''

theorem Turn.take_first {sections : List Section} {wanted : List String} {name : String}
    (rest : List String) :
    Turn sections ⟨wanted, name :: rest⟩ (expand sections ⟨wanted, rest⟩ name) :=
  @Turn.take sections wanted [] rest name

/-! ## One turn -/

/-- The names are added to those that were wanted, and the new ones among them to the pending ones. -/
structure Adds (w : Worklist) (names : List String) (w' : Worklist) : Prop where
  new : ∃ new, w' = ⟨w.wanted ++ new, w.pending ++ new⟩
  wanted : ∀ name, name ∈ w'.wanted ↔ name ∈ w.wanted ∨ name ∈ names
  nodup : w.wanted.Nodup → w'.wanted.Nodup

theorem want_adds (w : Worklist) (name : String) : w.Adds [name] (w.want name) := by
  rw [want]
  split
  · rename_i hname
    refine ⟨⟨[], by simp⟩, fun other => ?_, id⟩
    rw [List.mem_singleton]
    exact ⟨.inl, fun h => h.elim id fun heq => heq ▸ hname⟩
  · rename_i hname
    refine ⟨⟨[name], rfl⟩, fun other => List.mem_append, fun hnodup => ?_⟩
    exact List.nodup_append'.2 ⟨hnodup, List.nodup_singleton _, List.disjoint_singleton.2 hname⟩

theorem foldl_want_adds (names : List String) :
    ∀ w : Worklist, w.Adds names (names.foldl want w) := by
  induction names with
  | nil => exact fun w => ⟨⟨[], by simp⟩, by simp, id⟩
  | cons name names ih =>
      intro w
      obtain ⟨⟨first, hfirst⟩, hwanted, hnodup⟩ := w.want_adds name
      obtain ⟨⟨rest, hrest⟩, hwanted', hnodup'⟩ := ih (w.want name)
      rw [List.foldl_cons]
      refine ⟨⟨first ++ rest, ?_⟩, fun other => ?_, fun h => hnodup' (hnodup h)⟩
      · rw [hrest, hfirst, List.append_assoc, List.append_assoc]
      · rw [hwanted', hwanted, List.mem_singleton, List.mem_cons, or_assoc]

theorem expand_eq (sections : List Section) (w : Worklist) (name : String) :
    expand sections w name = (requiredBy sections [name]).foldl want w := by
  rw [requiredBy, List.foldl_flatMap, List.foldl_filter]
  simp [expand]

/-- Expanding a name adds what it requires. -/
theorem expand_adds (sections : List Section) (w : Worklist) (name : String) :
    w.Adds (requiredBy sections [name]) (expand sections w name) := by
  rw [expand_eq]
  exact foldl_want_adds _ w

theorem mem_requiredBy_singleton {sections : List Section} {name other : String} :
    other ∈ requiredBy sections [name] ↔ Requires sections name other := by
  simp [mem_requiredBy]

/-! ## What every turn keeps -/

/-- What holds after some turns of the loop. -/
structure Sound (sections : List Section) (given : List String) (turns : Nat) (w : Worklist) :
    Prop where
  nodup : w.wanted.Nodup
  start : ∀ name ∈ given, lower name ∈ w.wanted
  reached : ∀ name ∈ w.wanted, Reaches (Requires sections) given name
  pending : ∀ name ∈ w.pending, name ∈ w.wanted
  required : ∀ a ∈ w.wanted, a ∉ w.pending → ∀ b, Requires sections a b → b ∈ w.wanted
  count : turns + w.pending.length = w.wanted.length

section Loop

variable {sections : List Section} {given : List String} {n : Nat} {w w' : Worklist}

theorem Starts.sound (h : Starts given w) : Sound sections given 0 w where
  nodup := h.nodup
  start := fun name hname => (h.wanted _).2 (List.mem_map_of_mem hname)
  reached := by
    intro name hname
    obtain ⟨g, hg, rfl⟩ := List.mem_map.1 ((h.wanted name).1 hname)
    exact ⟨g, hg, .refl⟩
  pending := fun name hname => h.pending.mem_iff.1 hname
  required := fun a ha hpending => absurd (h.pending.mem_iff.2 ha) hpending
  count := by rw [Nat.zero_add, h.pending.length_eq]

theorem Sound.turn (h : Sound sections given n w) (hturn : Turn sections w w') :
    Sound sections given (n + 1) w' := by
  obtain @⟨wanted, before, after, name⟩ := hturn
  obtain ⟨⟨new, heq⟩, hwanted, hnodup⟩ := expand_adds sections ⟨wanted, before ++ after⟩ name
  generalize expand sections ⟨wanted, before ++ after⟩ name = w' at heq hwanted hnodup
  have hname : name ∈ wanted := h.pending name (by simp)
  constructor
  · exact hnodup h.nodup
  · exact fun g hg => (hwanted _).2 (.inl (h.start g hg))
  · intro other hother
    rcases (hwanted other).1 hother with hold | hnew
    · exact h.reached other hold
    · exact (h.reached name hname).step (mem_requiredBy_singleton.1 hnew)
  · intro other hother
    subst heq
    rcases List.mem_append.1 hother with hold | hnew
    · refine List.mem_append_left _ (h.pending other ?_)
      rw [List.mem_append] at hold
      simp only [List.mem_append, List.mem_cons]
      tauto
    · exact List.mem_append_right _ hnew
  · intro a ha hpending b hrequires
    rw [hwanted]
    by_cases hself : a = name
    · exact .inr (mem_requiredBy_singleton.2 (hself ▸ hrequires))
    -- A new name is pending, so this one was wanted before, and it was not pending then.
    · subst heq
      simp only [List.mem_append, not_or] at hpending
      obtain ⟨⟨hbefore, hafter⟩, hnew⟩ := hpending
      have hold : a ∈ wanted := (List.mem_append.1 ha).resolve_right hnew
      refine .inl (h.required a hold ?_ b hrequires)
      simp [hbefore, hself, hafter]
  · have hcount := h.count
    subst heq
    simp only [List.length_append, List.length_cons] at hcount ⊢
    omega

/-- What every turn keeps holds after any number of them. -/
theorem Turns.sound (hstart : Starts given w) (h : Turns sections w n w') :
    Sound sections given n w' := by
  induction h with
  | start => exact hstart.sound
  | next _ hturn ih => exact ih.turn hturn

theorem Sound.turns_le (h : Sound sections given n w) : n ≤ (allNames sections given).length := by
  have hsubset : w.wanted ⊆ allNames sections given :=
    fun name hname => mem_allNames_of_reaches (h.reached name hname)
  have hlength := (List.subperm_of_subset h.nodup hsubset).length_le
  have hcount := h.count
  omega

/-- When nothing is pending, exactly what is reached is wanted. -/
theorem Sound.mem_wanted_iff (h : Sound sections given n w) (hend : w.pending = []) {name : String} :
    name ∈ w.wanted ↔ Reaches (Requires sections) given name := by
  refine ⟨h.reached name, ?_⟩
  rintro ⟨g, hg, hpath⟩
  induction hpath with
  | refl => exact h.start g hg
  | tail _ hrequires ih => exact h.required _ ih (by simp [hend]) _ hrequires

/-- A loop that has not ended can go on, and it ends. -/
theorem Turns.exists_end (hstart : Starts given w) (h : Turns sections w n w') :
    ∃ m final, Turns sections w m final ∧ final.pending = [] := by
  induction hleft : (allNames sections given).length - n using Nat.strong_induction_on
    generalizing n w' with
  | _ left ih =>
      obtain ⟨wanted, pending⟩ := w'
      cases pending with
      | nil => exact ⟨n, _, h, rfl⟩
      | cons name rest =>
          have hnext := h.next (.take_first rest)
          have hle := (hnext.sound hstart).turns_le
          exact ih _ (by omega) hnext rfl

end Loop

theorem exists_starts (given : List String) : ∃ w, Starts given w :=
  ⟨⟨(given.map lower).dedup, (given.map lower).dedup⟩, fun _ => List.mem_dedup,
    List.nodup_dedup _, .refl _⟩

end Worklist

/-- The sections of the names that are reached are those that are chosen. -/
theorem filter_among_eq_choose {sections : List Section} {given names : List String}
    (hgiven : given ≠ [])
    (hnames : ∀ name, name ∈ names ↔ Reaches (Requires sections) given name) :
    sections.filter (Section.among names) = choose sections given := by
  apply List.filter_congr
  intro s _
  have hempty : given.isEmpty = false := by simp [hgiven]
  rw [isChosen, hempty, Bool.false_or, Section.among, Section.among, Bool.eq_iff_iff,
    List.contains_iff_mem, List.contains_iff_mem, hnames, mem_wanted_iff]

theorem choose_congr {sections : List Section} {given given' : List String} (hgiven : given ≠ [])
    (hsame : ∀ name, name ∈ given'.map lower ↔ name ∈ given.map lower) :
    choose sections given' = choose sections given := by
  have hgiven' : given' ≠ [] := by
    obtain ⟨g, rest, rfl⟩ := List.exists_cons_of_ne_nil hgiven
    rintro rfl
    simpa using (hsame (lower g)).2 (by simp)
  rw [← filter_among_eq_choose hgiven' fun _ => mem_wanted_iff]
  refine filter_among_eq_choose hgiven fun name => mem_wanted_iff.trans ?_
  exact ⟨Reaches.congr fun other => (hsame other).1, Reaches.congr fun other => (hsame other).2⟩

open Classical in
/-- The chosen sections are those whose names lie in the least set that holds the given names and is
closed under requirements, in the order of the program.  Neither the order nor the repetition nor the
case of the given names matters.  A loop that starts with the given names ends, whichever pending name
every turn takes out, within a number of turns that depends on the names alone, and the sections of the
names that are wanted in the end are the chosen ones. -/
theorem choose_least_closure {sections : List Section} {given : List String} (hgiven : given ≠ []) :
    (∃ names : Set String, IsLeast {names | ClosedUnder sections given names} names ∧
      choose sections given = sections.filter fun s => s.key ∈ names) ∧
    (∀ given' : List String, (∀ name, name ∈ given'.map lower ↔ name ∈ given.map lower) →
      choose sections given' = choose sections given) ∧
    (∃ w, Worklist.Starts given w) ∧
    ∀ w, Worklist.Starts given w →
      (∃ n final, Worklist.Turns sections w n final ∧ final.pending = []) ∧
      ∀ n w', Worklist.Turns sections w n w' →
        n ≤ (allNames sections given).length ∧
        (w'.pending = [] → sections.filter (Section.among w'.wanted) = choose sections given) := by
  refine ⟨⟨_, isLeast_reaches sections given, ?_⟩, fun given' => choose_congr hgiven,
    Worklist.exists_starts given, fun w hstart => ⟨Worklist.Turns.exists_end hstart .start, ?_⟩⟩
  · rw [choose_eq_reachable hgiven]
    rfl
  · intro n w' hturns
    have hsound := hturns.sound hstart
    exact ⟨hsound.turns_le, fun hend => filter_among_eq_choose hgiven fun _ => hsound.mem_wanted_iff hend⟩

/-- Sections that require each other in a circle, one of them under a name that another one has in
another case, and one that requires a name of no section. -/
def circle : List Section :=
  [{ name := "a", required := ["B"] }, { name := "b", required := ["c", "nowhere"] },
    { name := "x", required := ["a"] }, { name := "B", required := ["a"] }, { name := "C" }]

/-- The loop for the sections in a circle, its pending names taken out in one order or another. -/
theorem choose_least_closure_circle :
    ["A"] ≠ [] ∧ (choose circle ["A"]).map Section.name = ["a", "b", "B", "C"] ∧
      choose circle ["a", "A", "a"] = choose circle ["A"] ∧
      ∀ n w', Worklist.Turns circle ⟨["a"], ["a"]⟩ n w' → n ≤ 6 ∧
        (w'.pending = [] → circle.filter (Section.among w'.wanted) = choose circle ["A"]) := by
  have hstarts : Worklist.Starts ["A"] ⟨["a"], ["a"]⟩ :=
    ⟨fun name => by rw [show ["A"].map lower = ["a"] by decide], by decide, .refl _⟩
  obtain ⟨-, hsame, -, hloop⟩ := @choose_least_closure circle ["A"] (by decide)
  refine ⟨by decide, by decide +kernel, hsame _ fun name => ?_, (hloop _ hstarts).2⟩
  rw [show ["a", "A", "a"].map lower = ["a", "a", "a"] by decide,
    show ["A"].map lower = ["a"] by decide]
  simp

end ChipAsm
