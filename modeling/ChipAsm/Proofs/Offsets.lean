import Mathlib.Data.List.Induction
import ChipAsm.Proofs.History

/-!
# The offsets that runs leave behind

A reading may be assembled by one job after another, each with its own table and options.  A job that
is finished places the sections it takes one behind the other, and leaves the others where they lie
(`Job.next_eq_withOffsets`).  Which sections it takes, and where they start, does not depend on where
earlier jobs have put them (`Job.takes_withOffsets`, `Job.startOf_withOffsets`).

So a section lies where the last job that takes it puts it, and at zero if no job does.  Nothing else
in the reading changes (`runAll_moves`).
-/

namespace ChipAsm

open ChipAsm.Number

/-! ## Other offsets -/

/-- The reading, its sections at other offsets. -/
def Reading.withOffsets (reading : Reading) (offset : Nat → Section → Nat) : Reading :=
  { reading with
    program :=
      { reading.program with
        sections := reading.program.sections.mapIdx fun i s => { s with offset := offset i s } } }

/-- Placing all sections that pass a test moves each of them behind those in front of it. -/
theorem placeFrom_eq_mapIdx (chosen : Section → Bool) :
    ∀ (sections : List Section) (count next : Nat), sections.length ≤ count →
      placeFrom chosen count next sections = sections.mapIdx fun i s =>
        { s with
          offset :=
            if chosen s then next + totalSize ((sections.take i).filter chosen) else s.offset }
  | [], count, next, _ => by rw [placeFrom, List.mapIdx_nil]
  | s :: rest, 0, next, hcount => by simp at hcount
  | s :: rest, count + 1, next, hcount => by
      rw [List.length_cons] at hcount
      rw [placeFrom, List.mapIdx_cons]
      cases hs : chosen s with
      | true =>
          rw [if_pos rfl, placeFrom_eq_mapIdx chosen rest count _ (by omega)]
          simp [hs, totalSize, Nat.add_assoc]
      | false =>
          rw [if_neg (by simp), placeFrom_eq_mapIdx chosen rest (count + 1) _ (by omega)]
          simp [hs]

theorem totalSize_map_unplaced (sections : List Section) :
    totalSize (sections.map Section.unplaced) = totalSize sections := by
  induction sections with
  | nil => rfl
  | cons s rest ih =>
      rw [List.map_cons, totalSize, totalSize, ih]
      rfl

namespace Reading

variable {reading : Reading} {offset : Nat → Section → Nat}

theorem withOffsets_getElem? (reading : Reading) (offset : Nat → Section → Nat) (i : Nat) :
    (reading.withOffsets offset).program.sections[i]? =
      reading.program.sections[i]?.map fun s => { s with offset := offset i s } := by
  simp only [withOffsets, List.getElem?_mapIdx]

theorem withOffsets_unplaced (reading : Reading) (offset : Nat → Section → Nat) :
    (reading.withOffsets offset).unplaced = reading.unplaced := by
  have hsections : (reading.withOffsets offset).program.sections.map Section.unplaced =
      reading.program.sections.map Section.unplaced := by
    refine List.ext_getElem? fun i => ?_
    rw [List.getElem?_map, List.getElem?_map, withOffsets_getElem?, Option.map_map]
    rfl
  rw [unplaced, unplaced, hsections]
  rfl

theorem withOffsets_withOffsets (reading : Reading) (offset offset' : Nat → Section → Nat) :
    (reading.withOffsets offset).withOffsets offset' =
      reading.withOffsets fun i s => offset' i { s with offset := offset i s } := by
  simp only [withOffsets, List.mapIdx_mapIdx]
  rfl

/-- Only the offsets of the sections that the reading has matter. -/
theorem withOffsets_congr {offset' : Nat → Section → Nat}
    (h : ∀ i s, reading.program.sections[i]? = some s → offset i s = offset' i s) :
    reading.withOffsets offset = reading.withOffsets offset' := by
  have hsections : (reading.withOffsets offset).program.sections =
      (reading.withOffsets offset').program.sections := by
    refine List.ext_getElem? fun i => ?_
    rw [withOffsets_getElem?, withOffsets_getElem?]
    cases hi : reading.program.sections[i]? with
    | none => rfl
    | some s => rw [Option.map_some, Option.map_some, h i s hi]
  simp only [withOffsets] at hsections ⊢
  rw [hsections]

theorem withOffsets_self (reading : Reading) : (reading.withOffsets fun _ s => s.offset) = reading := by
  have hsections : (reading.withOffsets fun _ s => s.offset).program.sections =
      reading.program.sections := by
    refine List.ext_getElem? fun i => ?_
    rw [withOffsets_getElem?]
    exact Option.map_id_apply
  simp only [withOffsets] at hsections ⊢
  rw [hsections]

end Reading

/-! ## One job -/

/-- How a reading is assembled: the table of instructions, the warnings about the length of the output,
and the options. -/
structure Job where
  /-- The table. -/
  table : Table
  /-- The warnings. -/
  advisories : List Advisory := []
  /-- The options. -/
  options : Options := {}

namespace Job

/-- The run that the job makes of a reading. -/
def run (j : Job) (reading : Reading) : Run := reading.assemble j.table j.advisories j.options

/-- What a job leaves of the reading, if it is finished. -/
def next (j : Job) (reading : Reading) : Except NumeralFault Reading :=
  (j.run reading).result.map fun _ => (j.run reading).reading

/-- The test for the sections that the job takes.  It takes none of a reading with errors. -/
def takes (j : Job) (reading : Reading) (s : Section) : Bool :=
  reading.valid && isChosen j.options.sections
    (wanted reading.program.sections j.options.sections) s

/-- The job takes the section at place `i`. -/
def takesAt (j : Job) (reading : Reading) (i : Nat) : Bool :=
  reading.program.sections[i]?.any (j.takes reading)

/-- The sum of the sizes of the sections in front of place `i` that the job takes. -/
def startOf (j : Job) (reading : Reading) (i : Nat) : Nat :=
  totalSize ((reading.program.sections.take i).filter (j.takes reading))

theorem takes_of_invalid {reading : Reading} (h : reading.valid = false) (j : Job) (s : Section) :
    j.takes reading s = false := by
  rw [takes, h, Bool.false_and]

theorem takes_unplaced (j : Job) (reading : Reading) (s : Section) :
    j.takes reading.unplaced s = j.takes reading s := by
  simp only [takes, Reading.unplaced]
  rw [wanted_map (g := Section.unplaced) fun _ => ⟨rfl, rfl⟩]
  rfl

theorem startOf_unplaced (j : Job) (reading : Reading) (i : Nat) :
    j.startOf reading.unplaced i = j.startOf reading i := by
  have htakes : j.takes reading.unplaced = j.takes reading := funext (j.takes_unplaced reading)
  rw [startOf, startOf, htakes]
  simp only [Reading.unplaced]
  rw [← List.map_take, List.filter_map]
  exact totalSize_map_unplaced _

/-- Which sections a job takes does not depend on where they lie. -/
theorem takes_withOffsets (j : Job) (reading : Reading) (offset : Nat → Section → Nat) (s : Section) :
    j.takes (reading.withOffsets offset) s = j.takes reading s := by
  rw [← takes_unplaced, Reading.withOffsets_unplaced, takes_unplaced]

theorem startOf_withOffsets (j : Job) (reading : Reading) (offset : Nat → Section → Nat) (i : Nat) :
    j.startOf (reading.withOffsets offset) i = j.startOf reading i := by
  rw [← startOf_unplaced, Reading.withOffsets_unplaced, startOf_unplaced]

/-- A job that is finished moves the sections it takes, and nothing else. -/
theorem next_eq_withOffsets {j : Job} {reading reading' : Reading} (h : j.next reading = .ok reading') :
    reading' =
      reading.withOffsets fun i s => if j.takes reading s then j.startOf reading i else s.offset := by
  obtain ⟨result, hresult, rfl⟩ := map_eq_ok.1 h
  cases hvalid : reading.valid with
  | false =>
      simp only [takes_of_invalid hvalid]
      rw [run, Reading.assemble, if_neg (by simp [hvalid])]
      exact reading.withOffsets_self.symm
  | true =>
      have htakes : j.takes reading = isChosen j.options.sections
          (wanted reading.program.sections j.options.sections) :=
        funext fun s => by rw [takes, hvalid, Bool.true_and]
      simp only [startOf, htakes]
      rw [run, Reading.assemble, if_pos hvalid] at hresult ⊢
      simp only at hresult ⊢
      split at hresult
      · simp only [Reading.place, Program.place, Reading.withOffsets,
          placeFrom_eq_mapIdx _ _ _ _ (Nat.le_refl _), Nat.zero_add]
      · cases hresult

end Job

/-! ## One job after another -/

/-- What jobs, one after another, leave of the reading, if all of them are finished. -/
def runAll (reading : Reading) (jobs : List Job) : Except NumeralFault Reading :=
  jobs.foldlM (fun reading j => j.next reading) reading

/-- Where the last of the jobs that takes the section at place `i` puts it, or zero. -/
def Reading.offsetAfter (reading : Reading) (jobs : List Job) (i : Nat) : Nat :=
  match jobs.reverse.find? fun j => j.takesAt reading i with
  | some j => j.startOf reading i
  | none => 0

theorem Reading.offsetAfter_concat (reading : Reading) (jobs : List Job) (j : Job) (i : Nat) :
    reading.offsetAfter (jobs ++ [j]) i =
      if j.takesAt reading i then j.startOf reading i else reading.offsetAfter jobs i := by
  rw [offsetAfter, List.reverse_concat, List.find?_cons]
  cases j.takesAt reading i with
  | true => rfl
  | false => rfl

theorem Reading.offsetAfter_of_invalid {reading : Reading} (h : reading.valid = false)
    (jobs : List Job) (i : Nat) : reading.offsetAfter jobs i = 0 := by
  have hnone : (jobs.reverse.find? fun j => j.takesAt reading i) = none := by
    rw [List.find?_eq_none]
    intro j _
    rw [Job.takesAt, Bool.not_eq_true]
    cases reading.program.sections[i]? with
    | none => rfl
    | some s => exact j.takes_of_invalid h s
  rw [offsetAfter, hnone]

theorem Reading.of_moved_zero (source : String) :
    ((Reading.of source).withOffsets fun _ _ => 0) = Reading.of source := by
  refine (withOffsets_congr fun i s hs => ?_).trans (Reading.of source).withOffsets_self
  rw [← Reading.of_unplaced] at hs
  simp only [unplaced, List.getElem?_map, Option.map_eq_some_iff] at hs
  obtain ⟨s, -, rfl⟩ := hs
  rfl

theorem runAll_eq_withOffsets {source : String} {jobs : List Job} :
    ∀ {reading : Reading}, runAll (Reading.of source) jobs = .ok reading →
      reading = (Reading.of source).withOffsets fun i _ => (Reading.of source).offsetAfter jobs i := by
  -- The last job decides first, so the induction takes jobs from the end.
  induction jobs using List.reverseRecOn with
  | nil =>
      intro reading h
      cases h
      exact (Reading.of_moved_zero source).symm
  | append_singleton jobs j ih =>
      intro reading h
      rw [runAll, List.foldlM_append] at h
      obtain ⟨middle, hmiddle, hlast⟩ := bind_eq_ok.1 h
      simp only [List.foldlM_cons, List.foldlM_nil, bind_pure] at hlast
      rw [Job.next_eq_withOffsets hlast, ih hmiddle, Reading.withOffsets_withOffsets]
      refine Reading.withOffsets_congr fun i s hs => ?_
      have htaken : j.takesAt (Reading.of source) i = j.takes (Reading.of source) s := by
        rw [Job.takesAt, hs, Option.any_some]
      rw [Reading.offsetAfter_concat, htaken, Job.takes_withOffsets, Job.startOf_withOffsets]
      rfl

/-- Jobs that are finished change nothing of what was read but offsets.  A section lies behind the sections
in front of it that were taken with it by the last job that took it, and at zero if no job did.  Jobs
on a reading with errors move no section. -/
theorem runAll_moves {source : String} {jobs : List Job} {reading : Reading}
    (h : runAll (Reading.of source) jobs = .ok reading) :
    reading.unplaced = Reading.of source ∧
      (∀ i s, reading.program.sections[i]? = some s →
        s.offset = (Reading.of source).offsetAfter jobs i) ∧
      ((Reading.of source).valid = false → reading = Reading.of source) := by
  rw [runAll_eq_withOffsets h]
  refine ⟨?_, ?_, ?_⟩
  · rw [Reading.withOffsets_unplaced, Reading.of_unplaced]
  · intro i s hs
    rw [Reading.withOffsets_getElem?] at hs
    obtain ⟨s, -, rfl⟩ := Option.map_eq_some_iff.1 hs
    rfl
  · intro hinvalid
    simp only [Reading.offsetAfter_of_invalid hinvalid]
    exact Reading.of_moved_zero source

/-- A section, one that stands for itself, and one that needs the first. -/
def needsFirst : String := "section b\nyield\nsection a\nyield\nyield\nsection c requires b\nyield"

/-- A job for all sections and then one for the third, which takes the first with it.  The second
section stays where the first job has put it. -/
def allThenThird : List Job := [⟨.standard, [], {}⟩, ⟨.standard, [], { sections := ["c"] }⟩]

theorem runAll_moves_allThenThird :
    ∃ reading, runAll (Reading.of needsFirst) allThenThird = .ok reading ∧
      reading.program.sections.map Section.offset = [0, 1, 1] ∧
      reading.unplaced = Reading.of needsFirst ∧
      (∀ i s, reading.program.sections[i]? = some s →
        s.offset = (Reading.of needsFirst).offsetAfter allThenThird i) ∧
      ((Reading.of needsFirst).valid = false → reading = Reading.of needsFirst) := by
  have h : runAll (Reading.of needsFirst) allThenThird =
      .ok ((Reading.of needsFirst).withOffsets fun i _ => [0, 1, 1].getD i 0) := by
    decide +kernel
  exact ⟨_, h, by decide +kernel, runAll_moves h⟩

end ChipAsm
