import Mathlib.Data.List.Induction
import Mathlib.Data.List.Nodup
import ChipAsm.InstructionSet
import ChipAsm.Proofs.Service

/-!
# Instruction tables and their ledgers

A ledger lists the additions that a table has taken, in the order of time.  It is never rewritten, and all
that a table answers can be told from it.  The signature of a mnemonic is that of the latest addition with
its key (`latest`), and the mnemonics stand in the order in which their keys were first added (`keys`).

`tableOf` is the table that a ledger describes.  One more addition leads from the table of a ledger to the
table of the longer ledger (`tableOf_insert`), whether it replaces a signature or brings a new mnemonic.
So a table and its ledger go side by side through every sequence of queries (`reply_simulates`).
-/

namespace ChipAsm

open ChipAsm.Text

/-! ## Queries -/

namespace Table

/-- What is asked of a table. -/
inductive Query where
  /-- To add a mnemonic. -/
  | add (mnemonic : String) (offers : List Offer)
  /-- To add mnemonics in turn. -/
  | extend (entries : List (String × List Offer))
  /-- For the signature of a mnemonic. -/
  | lookup (mnemonic : String)
  /-- Whether there is a signature for a mnemonic. -/
  | contains (mnemonic : String)
  /-- For all signatures. -/
  | list
  /-- For their number. -/
  | size

/-- What is replied to a query. -/
inductive Reply where
  /-- The mnemonic has been added with this signature. -/
  | added (s : Signature)
  /-- All mnemonics have been added. -/
  | extended
  /-- A mnemonic has been refused. -/
  | refused (fault : SignatureFault)
  /-- The signature that was looked up. -/
  | found (s : Option Signature)
  /-- Whether there is a signature. -/
  | held (b : Bool)
  /-- All signatures in order. -/
  | listed (signatures : List Signature)
  /-- The number of signatures. -/
  | counted (n : Nat)
deriving DecidableEq

/-- A table replies to a query. -/
def reply (table : Table) : Query → Table × Reply
  | .add mnemonic offers =>
    match table.add mnemonic offers with
    | .ok (table, s) => (table, .added s)
    | .error fault => (table, .refused fault)
  | .extend entries =>
    match table.extend entries with
    | (table, none) => (table, .extended)
    | (table, some fault) => (table, .refused fault)
  | .lookup mnemonic => (table, .found (table.lookup mnemonic))
  | .contains mnemonic => (table, .held (table.contains mnemonic))
  | .list => (table, .listed table.signatures)
  | .size => (table, .counted table.size)

end Table

/-! ## Ledgers -/

/-- The value that is offered, if it is no constraint. -/
def Offer.literal? : Offer → Option Literal
  | .constraint _ => none
  | .literal v => some v

/-- The constraint that is offered, if it is one. -/
def Offer.constraint? : Offer → Option Constraint
  | .constraint c => some c
  | .literal _ => none

/-- A mnemonic as it was given, with the constraints that were taken for it. -/
structure Addition where
  /-- The mnemonic. -/
  mnemonic : String
  /-- The constraints. -/
  constraints : List Constraint

namespace Addition

/-- The mnemonic in lower case, without blanks around it. -/
def key (a : Addition) : String := lower (strip a.mnemonic)

/-- The signature that is added. -/
def signature (a : Addition) : Signature := ⟨a.key, a.constraints⟩

/-- The addition that an entry makes.  It is refused if its mnemonic has nothing but blanks, and otherwise
for the first value that is no constraint. -/
def ofEntry (entry : String × List Offer) : Except SignatureFault Addition :=
  if strip entry.1 = "" then .error .emptyMnemonic
  else
    match entry.2.findSome? Offer.literal? with
    | some v => .error (.notConstraint v entry.1)
    | none => .ok ⟨entry.1, entry.2.filterMap Offer.constraint?⟩

end Addition

namespace Ledger

/-- The signature of the latest addition with a key. -/
def latest (ledger : List Addition) (key : String) : Option Signature :=
  (ledger.reverse.find? fun a => a.key = key).map Addition.signature

/-- The keys in the order in which they were first added. -/
def keys (ledger : List Addition) : List String := (ledger.map Addition.key).eraseDups

/-- The signatures in the order in which their keys were first added. -/
def signatures (ledger : List Addition) : List Signature := (keys ledger).filterMap (latest ledger)

/-- The additions of the entries before the first that is refused. -/
def taken (entries : List (String × List Offer)) : List Addition :=
  (entries.takeWhile fun entry => (Addition.ofEntry entry).isOk).filterMap fun entry =>
    (Addition.ofEntry entry).toOption

/-- Why the first entry that is refused is refused. -/
def fault? (entries : List (String × List Offer)) : Option SignatureFault :=
  entries.findSome? fun entry =>
    match Addition.ofEntry entry with
    | .ok _ => none
    | .error fault => some fault

/-- A ledger replies to a query: a refused addition leaves it as it is, and of several additions those
before the first refused one are noted. -/
def reply (ledger : List Addition) : Table.Query → List Addition × Table.Reply
  | .add mnemonic offers =>
    match Addition.ofEntry (mnemonic, offers) with
    | .ok a => (ledger ++ [a], .added a.signature)
    | .error fault => (ledger, .refused fault)
  | .extend entries =>
    (ledger ++ taken entries, ((fault? entries).map Table.Reply.refused).getD .extended)
  | .lookup mnemonic => (ledger, .found (latest ledger (lower mnemonic)))
  | .contains mnemonic => (ledger, .held (latest ledger (lower mnemonic)).isSome)
  | .list => (ledger, .listed (signatures ledger))
  | .size => (ledger, .counted (keys ledger).length)

/-- The table that a ledger describes. -/
def tableOf (ledger : List Addition) : Table := ⟨signatures ledger⟩

/-! ## One more addition -/

/-- One more addition is the latest of its key, and those of other keys are as before. -/
theorem latest_concat (ledger : List Addition) (a : Addition) (key : String) :
    latest (ledger ++ [a]) key = if a.key = key then some a.signature else latest ledger key := by
  rw [latest, List.reverse_concat, List.find?_cons]
  split <;> simp_all [latest]

/-- One more addition keeps the order of the keys, and a new key comes last. -/
theorem keys_concat (ledger : List Addition) (a : Addition) :
    keys (ledger ++ [a]) = if a.key ∈ keys ledger then keys ledger else keys ledger ++ [a.key] := by
  have hone : [a.key].eraseDups = [a.key] := rfl
  rw [keys, List.map_append, List.map_singleton, List.eraseDups_append, List.removeAll,
    List.filter_singleton, keys]
  by_cases hmem : a.key ∈ ledger.map Addition.key
  · simp [hmem]
  · simp [hmem, hone]

theorem nodup_keys (ledger : List Addition) : (keys ledger).Nodup := by
  induction ledger using List.reverseRecOn with
  | nil => exact List.nodup_nil
  | append_singleton ledger a ih =>
      rw [keys_concat]
      split
      · exact ih
      · rename_i hnew
        rw [← List.concat_eq_append]
        exact (List.nodup_concat _ _).2 ⟨hnew, ih⟩

/-- A key has a signature exactly if something was added under it. -/
theorem latest_eq_none_iff (ledger : List Addition) (key : String) :
    latest ledger key = none ↔ key ∉ keys ledger := by
  simp [latest, keys]

theorem mnemonic_of_latest {ledger : List Addition} {key : String} {s : Signature}
    (h : latest ledger key = some s) : s.mnemonic = key := by
  obtain ⟨a, ha, rfl⟩ := Option.map_eq_some_iff.1 h
  have hkey := List.find?_some ha
  exact of_decide_eq_true hkey

theorem exists_latest {ledger : List Addition} {key : String} (h : key ∈ keys ledger) :
    ∃ s, latest ledger key = some s ∧ s.mnemonic = key := by
  cases hlatest : latest ledger key with
  | none => exact absurd h ((latest_eq_none_iff ledger key).1 hlatest)
  | some s => exact ⟨s, rfl, mnemonic_of_latest hlatest⟩

/-! ## Signatures by key -/

section

variable {ks : List String} {f : String → Option Signature}

/-- Inserting replaces the signature of a key that is there, and puts that of a new key behind all
others. -/
theorem insertSignature_filterMap (hnodup : ks.Nodup)
    (hf : ∀ k ∈ ks, ∃ t, f k = some t ∧ t.mnemonic = k) (s : Signature) :
    insertSignature s (ks.filterMap f) =
      if s.mnemonic ∈ ks then ks.filterMap fun k => if s.mnemonic = k then some s else f k
      else ks.filterMap f ++ [s] := by
  induction ks with
  | nil => rfl
  | cons k ks ih =>
      rw [List.nodup_cons] at hnodup
      rw [List.forall_mem_cons] at hf
      obtain ⟨⟨t, ht, hkey⟩, hf⟩ := hf
      rw [List.filterMap_cons_some ht, insertSignature, hkey]
      by_cases hhead : k = s.mnemonic
      · -- the other keys differ from the first one
        have hrest : (ks.filterMap fun k => if s.mnemonic = k then some s else f k) =
            ks.filterMap f := by
          refine List.filterMap_congr fun k' hk' => if_neg ?_
          rintro rfl
          exact hnodup.1 (hhead ▸ hk')
        simp [hhead, hrest]
      · have hne : s.mnemonic ≠ k := fun h => hhead h.symm
        rw [if_neg hhead, ih hnodup.2 hf]
        by_cases hmem : s.mnemonic ∈ ks
        · simp [hmem, hne, ht]
        · simp [hmem, hne]

theorem find?_filterMap_mnemonic (hf : ∀ k ∈ ks, ∃ t, f k = some t ∧ t.mnemonic = k) {key : String}
    (h : key ∈ ks) : (ks.filterMap f).find? (fun s => s.mnemonic = key) = f key := by
  induction ks with
  | nil => cases h
  | cons k ks ih =>
      rw [List.forall_mem_cons] at hf
      obtain ⟨⟨t, ht, hkey⟩, hf⟩ := hf
      rw [List.filterMap_cons_some ht, List.find?_cons, hkey]
      by_cases hhead : k = key
      · simp [hhead, ← ht]
      · rw [List.mem_cons] at h
        simp [hhead, ih hf (h.resolve_left fun h => hhead h.symm)]

theorem map_mnemonic_filterMap (hf : ∀ k ∈ ks, ∃ t, f k = some t ∧ t.mnemonic = k) :
    (ks.filterMap f).map Signature.mnemonic = ks := by
  induction ks with
  | nil => rfl
  | cons k ks ih =>
      rw [List.forall_mem_cons] at hf
      obtain ⟨⟨t, ht, hkey⟩, hf⟩ := hf
      rw [List.filterMap_cons_some ht, List.map_cons, hkey, ih hf]

end

/-! ## The table of a ledger -/

/-- The mnemonics of the table stand in the order in which their keys were first added. -/
theorem mnemonics_tableOf (ledger : List Addition) : (tableOf ledger).mnemonics = keys ledger :=
  map_mnemonic_filterMap fun _ h => exists_latest h

theorem size_tableOf (ledger : List Addition) : (tableOf ledger).size = (keys ledger).length := by
  rw [← mnemonics_tableOf, Table.mnemonics, List.length_map, Table.size]

/-- The table has the latest signature for every mnemonic. -/
theorem lookup_tableOf (ledger : List Addition) (mnemonic : String) :
    (tableOf ledger).lookup mnemonic = latest ledger (lower mnemonic) := by
  have hlookup : (tableOf ledger).lookup mnemonic =
      (signatures ledger).find? fun s => s.mnemonic = lower mnemonic := rfl
  rw [hlookup]
  by_cases hmem : lower mnemonic ∈ keys ledger
  · exact find?_filterMap_mnemonic (fun _ h => exists_latest h) hmem
  · rw [(latest_eq_none_iff _ _).2 hmem, List.find?_eq_none]
    intro s hs hkey
    rw [← mnemonics_tableOf, ← of_decide_eq_true hkey] at hmem
    exact hmem (List.mem_map_of_mem hs)

theorem signatures_concat (ledger : List Addition) (a : Addition) :
    signatures (ledger ++ [a]) = insertSignature a.signature (signatures ledger) := by
  have hmnemonic : a.signature.mnemonic = a.key := rfl
  have hlatest : latest (ledger ++ [a]) =
      fun key => if a.key = key then some a.signature else latest ledger key :=
    funext (latest_concat ledger a)
  rw [signatures, signatures,
    insertSignature_filterMap (nodup_keys ledger) (fun _ h => exists_latest h), hmnemonic,
    keys_concat, hlatest]
  by_cases hmem : a.key ∈ keys ledger
  · rw [if_pos hmem, if_pos hmem]
  · have hold : ((keys ledger).filterMap fun key =>
        if a.key = key then some a.signature else latest ledger key) =
        (keys ledger).filterMap (latest ledger) := by
      refine List.filterMap_congr fun key hkey => if_neg ?_
      rintro rfl
      exact hmem hkey
    rw [if_neg hmem, if_neg hmem, List.filterMap_append, hold]
    simp

/-- Inserting a signature leads to the table of the ledger with one more addition. -/
theorem tableOf_insert (ledger : List Addition) (a : Addition) :
    (tableOf ledger).insert a.signature = tableOf (ledger ++ [a]) :=
  congrArg Table.mk (signatures_concat ledger a).symm

/-- If no key was added twice, the signatures stand as they were added. -/
theorem signatures_of_nodup {ledger : List Addition} (h : (ledger.map Addition.key).Nodup) :
    signatures ledger = ledger.map Addition.signature := by
  induction ledger using List.reverseRecOn with
  | nil => rfl
  | append_singleton ledger a ih =>
      rw [List.map_append, List.map_singleton, ← List.concat_eq_append, List.nodup_concat] at h
      have hnew : a.signature.mnemonic ∉ keys ledger := by simpa [keys, Addition.signature] using h.1
      rw [signatures_concat, signatures,
        insertSignature_filterMap (nodup_keys ledger) (fun _ h => exists_latest h), if_neg hnew,
        ← signatures, ih h.2, List.map_append, List.map_singleton]

/-! ## Additions -/

theorem constraintsOf_eq (offers : List Offer) :
    constraintsOf offers =
      match offers.findSome? Offer.literal? with
      | some v => .error v
      | none => .ok (offers.filterMap Offer.constraint?) := by
  induction offers with
  | nil => rfl
  | cons offer offers ih =>
      cases offer with
      | literal v => rfl
      | constraint c =>
          have hfirst : (Offer.constraint c :: offers).filterMap Offer.constraint? =
              c :: offers.filterMap Offer.constraint? := List.filterMap_cons_some rfl
          rw [constraintsOf, ih, hfirst, List.findSome?_cons, Offer.literal?]
          cases offers.findSome? Offer.literal? with
          | some v => rfl
          | none => rfl

/-- A signature is made or refused as the entry is noted or refused. -/
theorem make_eq (entry : String × List Offer) :
    Signature.make entry.1 entry.2 = (Addition.ofEntry entry).map Addition.signature := by
  have hblank : strip entry.1 = "" ↔ stripChars entry.1.toList = [] := by
    rw [strip, ← String.toList_inj, String.toList_ofList]
    rfl
  rw [Signature.make, Addition.ofEntry, constraintsOf_eq]
  simp only [hblank]
  split
  · rfl
  · cases entry.2.findSome? Offer.literal? with
    | some v => rfl
    | none => rfl

theorem add_tableOf (ledger : List Addition) (entry : String × List Offer) :
    (tableOf ledger).add entry.1 entry.2 =
      (Addition.ofEntry entry).map fun a => (tableOf (ledger ++ [a]), a.signature) := by
  rw [Table.add, make_eq]
  cases Addition.ofEntry entry with
  | error fault => rfl
  | ok a => exact congrArg (fun table => Except.ok (table, a.signature)) (tableOf_insert ledger a)

/-- Of several entries those before the first refused one are taken, and its fault is told. -/
theorem extend_tableOf (entries : List (String × List Offer)) (ledger : List Addition) :
    (tableOf ledger).extend entries = (tableOf (ledger ++ taken entries), fault? entries) := by
  induction entries generalizing ledger with
  | nil => simp [Table.extend, taken, fault?]
  | cons entry entries ih =>
      rw [Table.extend, add_tableOf]
      cases hentry : Addition.ofEntry entry with
      | error fault => simp [taken, fault?, hentry, Except.map, Except.isOk, Except.toBool]
      | ok a =>
          simp only [Except.map, ih]
          simp [taken, fault?, hentry, Except.isOk, Except.toBool, Except.toOption]

/-! ## Queries in turn -/

/-- A table that a ledger describes replies as the ledger does, and goes on to the table that the ledger
behind the query describes. -/
theorem reply_tableOf (ledger : List Addition) (query : Table.Query) :
    (tableOf ledger).reply query = ((reply ledger query).map tableOf id) := by
  cases query with
  | add mnemonic offers =>
      rw [Table.reply, reply, add_tableOf ledger (mnemonic, offers)]
      cases Addition.ofEntry (mnemonic, offers) with
      | error fault => rfl
      | ok a => rfl
  | extend entries =>
      rw [Table.reply, reply, extend_tableOf]
      cases fault? entries with
      | none => rfl
      | some fault => rfl
  | lookup mnemonic =>
      rw [Table.reply, reply, lookup_tableOf]
      rfl
  | contains mnemonic =>
      rw [Table.reply, reply, Table.contains, lookup_tableOf]
      rfl
  | list => rfl
  | size =>
      rw [Table.reply, reply, size_tableOf]
      rfl

/-- A table and the ledger that describes it stay side by side. -/
theorem reply_simulates :
    Simulates (fun table ledger => table = tableOf ledger) Table.reply reply := by
  rintro _ ledger rfl query
  rw [reply_tableOf]
  exact ⟨rfl, rfl⟩

end Ledger

namespace Table

/-- The tables that one starts with. -/
inductive Base where
  /-- The empty table. -/
  | empty
  /-- The table of the chip's instructions. -/
  | standard

namespace Base

/-- The table itself. -/
def table : Base → Table
  | .empty => {}
  | .standard => Table.standard

/-- The additions that make it up. -/
def ledger : Base → List Addition
  | .empty => []
  | .standard => InstructionSet.all.map fun (mnemonic, constraints) => ⟨mnemonic, constraints⟩

theorem key_of_mem_standard {a : Addition} (h : a ∈ standard.ledger) : a.key = a.mnemonic := by
  have hplain : InstructionSet.all.all (fun entry =>
      lowerChars (stripChars entry.1.toList) == entry.1.toList) = true := by decide +kernel
  obtain ⟨entry, hentry, rfl⟩ := List.mem_map.1 h
  have hchars := eq_of_beq (List.all_eq_true.1 hplain entry hentry)
  rw [Addition.key, lower, strip, String.toList_ofList, hchars, String.ofList_toList]

/-- The table of the chip's instructions has every mnemonic once. -/
theorem nodup_standard : (standard.ledger.map Addition.key).Nodup := by
  -- numbers are compared faster than texts
  have hcodes : (InstructionSet.all.map fun entry =>
      entry.1.toList.foldl (fun n c => 256 * n + c.toNat) 0).Nodup := by decide +kernel
  have hnames : (standard.ledger.map Addition.mnemonic).Nodup := by
    rw [ledger, List.map_map]
    exact List.Nodup.of_map (fun name : String => name.toList.foldl (fun n c => 256 * n + c.toNat) 0)
      (by rwa [List.map_map])
  rwa [List.map_congr_left fun a ha => key_of_mem_standard ha]

/-- Each table that one starts with is that of its ledger. -/
theorem table_eq (base : Base) : base.table = Ledger.tableOf base.ledger := by
  cases base with
  | empty => rfl
  | standard =>
      have hsignature : ∀ entry ∈ InstructionSet.all,
          (⟨entry.1, entry.2⟩ : Signature) = Addition.signature ⟨entry.1, entry.2⟩ := by
        intro entry hentry
        rw [Addition.signature, key_of_mem_standard (List.mem_map_of_mem hentry)]
      rw [Ledger.tableOf, Ledger.signatures_of_nodup nodup_standard, ledger, List.map_map]
      exact congrArg Table.mk (List.map_congr_left hsignature)

end Base

/-! ## Refinement -/

/-- An extension that is refused has taken the entries before the refused one, and no other. -/
theorem extend_eq_fault {entries : List (String × List Offer)} {table table' : Table}
    {fault : SignatureFault} (h : table.extend entries = (table', some fault)) :
    ∃ before entry after, entries = before ++ entry :: after ∧
      table.extend before = (table', none) ∧ table'.add entry.1 entry.2 = .error fault := by
  induction entries generalizing table with
  | nil => cases h
  | cons entry entries ih =>
      rw [extend] at h
      cases hadd : table.add entry.1 entry.2 with
      | error fault' =>
          rw [hadd] at h
          cases h
          exact ⟨[], entry, entries, rfl, rfl, hadd⟩
      | ok added =>
          rw [hadd] at h
          obtain ⟨before, entry', after, rfl, hbefore, hfault⟩ := ih h
          refine ⟨entry :: before, entry', after, rfl, ?_, hfault⟩
          rw [extend, hadd]
          exact hbefore

/-- All that can be seen of a table is told by a ledger. -/
structure Refines (table : Table) (ledger : List Addition) : Prop where
  /-- A mnemonic has the signature of the latest addition that agrees with it in lower case, the blanks
  around what was added disregarded. -/
  lookup : ∀ mnemonic, table.lookup mnemonic = Ledger.latest ledger (lower mnemonic)
  /-- A mnemonic is there if it has a signature. -/
  contains : ∀ mnemonic, table.contains mnemonic = true ↔ table.lookup mnemonic ≠ none
  /-- The keys stand in the order in which they were first added. -/
  order : table.mnemonics = Ledger.keys ledger
  /-- Each key stands there once. -/
  nodup : table.mnemonics.Nodup
  /-- The signatures are the latest of their keys. -/
  signatures : table.signatures = Ledger.signatures ledger
  /-- There are as many signatures as keys. -/
  size : table.size = (Ledger.keys ledger).length

theorem refines_tableOf (ledger : List Addition) : (Ledger.tableOf ledger).Refines ledger where
  lookup := Ledger.lookup_tableOf ledger
  contains mnemonic := by rw [contains, Option.isSome_iff_ne_none]
  order := Ledger.mnemonics_tableOf ledger
  nodup := by
    rw [Ledger.mnemonics_tableOf]
    exact Ledger.nodup_keys ledger
  signatures := rfl
  size := Ledger.size_tableOf ledger

/-- Whatever is asked of a table, starting with the empty one or with that of the chip, it replies as the
ledger of the additions that it has taken, and all that can be seen of it is told by this ledger.  A
mnemonic that is refused leaves no trace.  When several mnemonics are added and one is refused, the table
is that of the mnemonics before it. -/
theorem serve_refines (base : Base) (queries : List Query) :
    (serve reply base.table queries).2 = (serve Ledger.reply base.ledger queries).2 ∧
      (serve reply base.table queries).1.Refines (serve Ledger.reply base.ledger queries).1 ∧
      ∀ entries table fault,
        (serve reply base.table queries).1.extend entries = (table, some fault) →
        ∃ before entry after, entries = before ++ entry :: after ∧
          (serve reply base.table queries).1.extend before = (table, none) ∧
          table.add entry.1 entry.2 = .error fault := by
  obtain ⟨hreplies, htable⟩ := Ledger.reply_simulates.serve queries base.table_eq
  exact ⟨hreplies, htable ▸ refines_tableOf _, fun _ _ _ => extend_eq_fault⟩

/-- A mnemonic that is replaced keeps its place, and of four entries the two before the refused one are
taken. -/
theorem serve_refines_replaced :
    (serve reply Base.empty.table
      [.add " Nop " [], .extend [("HALT", []), ("nop", [.constraint ⟨4⟩]), (" ", []), ("jump", [])],
        .lookup "NOP", .lookup " nop ", .contains "jump", .list, .size]).2 =
      [.added ⟨"nop", []⟩, .refused .emptyMnemonic, .found (some ⟨"nop", [⟨4⟩]⟩), .found none,
        .held false, .listed [⟨"nop", [⟨4⟩]⟩, ⟨"halt", []⟩], .counted 2] := by
  rw [(serve_refines .empty _).1]
  decide +kernel

end Table

end ChipAsm
