import ChipAsm.InstructionSet
import ChipAsm.Proofs.Token
import ChipAsm.Proofs.Visibility

/-!
# Addresses of labels

The operand that names a label becomes an address: the index of the line of output that was emitted
for the instruction that the label marks.  Where nothing of the section follows the label, it is the
end of the section.  At a place that is relative to the instruction, the operand becomes the distance
from the index of the instruction to that address.

A label holds a position in its section, so the address is this position moved by the offset of the
section.  What makes it an index of the output is that a run without errors emits one line for each
instruction, in order (`emitted_at`), and that instructions have different source lines
(`findIdx?_emitted`).  `label_operand_address` puts this together.
-/

namespace ChipAsm

open ChipAsm.Token ChipAsm.Number

/-! ## Operands that name labels -/

theorem unalias_eq_self {scope : Scope} {token : String}
    (h : ∀ s ∈ scope.visible, s.alias? token = none) : scope.unalias token = token := by
  rw [Scope.unalias, List.findSome?_eq_none_iff.2 h, Option.getD_none]

theorem eq_label_of_symbol? {s : Section} {name : String} {d : Symbol}
    (h : s.symbol? name = some d) (hlabel : d.isLabel = true) :
    ∃ home p, d = .label home name p := by
  have hfound := List.find?_some h
  have hname : d.name = name := of_decide_eq_true hfound
  cases d with
  | constant home name' text => cases hlabel
  | label home name' p =>
      cases hname
      exact ⟨home, p, rfl⟩

/-- The word that names a label becomes the number that the label stands for, or its distance from
the instruction. -/
theorem resolveOperand_label {options : Options} {scope : Scope} {address p offset : Int}
    {home : Nat} {token : String} {c : Constraint} {r : Resolved} (hsubstitutes : c.substitutes = true)
    (halias : scope.unalias token = token) (hword : Shape.of token = .word)
    (hfind : scope.find? token = some ⟨.label home token p, offset⟩)
    (h : resolveOperand options scope address token c = .ok r) :
    r.text = intText (if c.isRelative then p + offset - address else p + offset) := by
  obtain ⟨operand, relative, hclassify, hrelative, rfl⟩ := resolveOperand_eq_ok h
  simp only [Scope.lookedUp, hsubstitutes, if_true, halias, Operand.classify, hword, hfind,
    Operand.ofWord] at hclassify
  obtain ⟨text, hwrite, rfl⟩ := map_eq_ok.1 hclassify
  obtain ⟨rfl, hread⟩ := readInt?_of_writeInt hwrite
  have htext : (if options.keepCalls then intText (p + offset)
      else expand (intText (p + offset))) = intText (p + offset) := by
    rw [expand_intText, ite_self]
  simp only [htext] at hrelative
  cases hc : c.isRelative with
  | false =>
      simp only [hc] at hrelative
      cases hrelative
      rfl
  | true =>
      simp only [hc, if_true, relativeTo, hread] at hrelative
      obtain ⟨target, htarget, hrelative⟩ := bind_eq_ok.1 hrelative
      cases htarget
      obtain ⟨distance, hdistance, rfl⟩ := map_eq_ok.1 hrelative
      exact (readInt?_of_writeInt hdistance).1

/-! ## Bodies of placed sections -/

/-- A placed section of a source without errors is the section of a body, moved to its offset. -/
theorem chosen_body {source : String} {given : List String} {k : Nat} {s : Section}
    (hvalid : (Reading.of source).valid = true)
    (h : ((Reading.of source).chosen given)[k]? = some s) :
    ∃ b ∈ bodies source, s = { b.toSection with offset := s.offset } := by
  obtain ⟨i, s', -, hs', heq⟩ := Reading.place_of_chosen h
  have hmem := List.mem_of_getElem? hs'
  rw [sections_eq_of_valid hvalid] at hmem
  obtain ⟨b, hb, rfl⟩ := List.mem_map.1 (List.mem_of_mem_filter hmem)
  exact ⟨b, hb, heq⟩

theorem position_of_chosen {source : String} {given : List String} {k p : Nat} {s : Section}
    {l : Instruction} (hvalid : (Reading.of source).valid = true)
    (hs : ((Reading.of source).chosen given)[k]? = some s) (hl : s.lines[p]? = some l) :
    l.position = p := by
  obtain ⟨b, -, heq⟩ := chosen_body hvalid hs
  have hposition : l.position = 0 + p := by
    rw [heq] at hl
    exact instructionsFrom_position b.lines hl
  rw [hposition, Nat.zero_add]

/-- The position of an instruction of a placed section is its index. -/
theorem chosen_position {source : String} {given : List String} {k : Nat} {s : Section}
    {l : Instruction} (hvalid : (Reading.of source).valid = true)
    (hs : ((Reading.of source).chosen given)[k]? = some s) (hl : l ∈ s.lines) :
    s.lines[l.position]? = some l := by
  obtain ⟨p, hp⟩ := List.mem_iff_getElem?.1 hl
  rw [position_of_chosen hvalid hs hp]
  exact hp

/-! ## Indices of the output -/

theorem emitted_pairwise {outcomes : List Outcome}
    (h : outcomes.Pairwise fun o o' => o.instruction.sourceLine < o'.instruction.sourceLine) :
    (emitted outcomes).Pairwise fun line line' => line.2 < line'.2 := by
  rw [emitted, List.pairwise_filterMap]
  refine h.imp ?_
  intro o o' hlt line hline line' hline'
  obtain ⟨_, -, rfl⟩ := Option.map_eq_some_iff.1 hline
  obtain ⟨_, -, rfl⟩ := Option.map_eq_some_iff.1 hline'
  exact hlt

theorem findIdx?_emitted {emission : List (String × Nat)} {i number : Nat} {text : String}
    (hdistinct : emission.Pairwise fun line line' => line.2 < line'.2)
    (h : emission[i]? = some (text, number)) :
    emission.findIdx? (fun line => line.2 = number) = some i := by
  obtain ⟨hlt, hget⟩ := List.getElem?_eq_some_iff.1 h
  rw [List.findIdx?_eq_some_iff_getElem]
  refine ⟨hlt, by simp [hget], ?_⟩
  intro j hj
  have hless := List.pairwise_iff_getElem.1 hdistinct j i (Nat.lt_trans hj hlt) hlt hj
  rw [hget] at hless
  simp only [decide_eq_true_eq]
  omega

/-! ## Addresses -/

/-- The address of a label of the section `t` with the body `b`: the index of the line that was
emitted for the instruction that the label marks, or the end of the section if it marks none. -/
def labelAddress? (emission : List (String × Nat)) (b : Body) (t : Section) (name : String) :
    Option Nat :=
  match b.lineAt? name with
  | some l => emission.findIdx? fun line => line.2 = l.number
  | none => some (t.offset + t.size)

/-- The address of a label is its position moved by the offset of its section. -/
theorem labelAddress?_eq {source : String} {table : Table} {options : Options}
    {outcomes : List Outcome} {j home : Nat} {t : Section} {b : Body} {name : String} {p : Int}
    (houtcomes : (Reading.of source).outcomes table options = .ok outcomes)
    (hproblems : ∀ o ∈ outcomes, o.problems = [])
    (ht : ((Reading.of source).chosen options.sections)[j]? = some t)
    (hb : t = { b.toSection with offset := t.offset })
    (hlabel : b.toSection.symbol? name = some (.label home name p)) :
    ∃ address : Nat, labelAddress? (emitted outcomes) b t name = some address ∧
      p + t.offset = address := by
  obtain ⟨q, rfl, hle, hmarked⟩ := label_position hlabel
  have hlines : t.lines = b.instructions := by rw [hb]; rfl
  refine ⟨t.offset + q, ?_, by omega⟩
  rw [labelAddress?]
  cases hline : b.lineAt? name with
  | none =>
      rw [hline, Option.map_none, Option.map_eq_none_iff, List.getElem?_eq_none_iff] at hmarked
      have hsize : t.size = q := by
        rw [Section.size, hlines]
        omega
      rw [hsize]
  | some l =>
      rw [hline, ← hlines] at hmarked
      obtain ⟨x, hx, hnumber⟩ := Option.map_eq_some_iff.1 hmarked
      obtain ⟨signature, resolved, -, -, -, hemitted⟩ := emitted_at houtcomes hproblems ht hx
      have hdistinct := chosen_sourceLines source options.sections
      rw [← outcomes_instructions houtcomes, List.pairwise_map] at hdistinct
      rw [hnumber] at hemitted
      exact findIdx?_emitted (emitted_pairwise hdistinct) hemitted

/-- In a run without errors, an operand that names a visible label becomes the address of the label,
or at a relative place its distance from the index of the instruction. -/
theorem label_operand_address {source : String} {table : Table} {advisories : List Advisory}
    {options : Options} {a : Assembly} {k i : Nat} {s t : Section} {l : Instruction}
    {signature : Signature} {token : String} {c : Constraint} {d : Symbol}
    (hrun : ((Reading.of source).assemble table advisories options).result = .ok a)
    (hvalid : a.valid = true) (hs : a.sections[k]? = some s) (hl : l ∈ s.lines)
    (hsignature : table.lookup l.opcode = some signature)
    (htoken : l.operands[i]? = some token) (hc : signature.constraints[i]? = some c)
    (halias : ∀ u ∈ a.sections.take (k + 1), u.alias? token = none)
    (hregister : isRegister token = false) (hdevice : isDevice token = false)
    (hsubstitutes : c.substitutes = true) (ht : t ∈ a.sections.take (k + 1))
    (hd : t.symbol? token = some d) (hlabel : d.isLabel = true) :
    ∃ outcomes b texts, ∃ address : Nat,
      (Reading.of source).outcomes table options = .ok outcomes ∧
      a.lines = (emitted outcomes).map Prod.fst ∧
      b ∈ bodies source ∧ t = { b.toSection with offset := t.offset } ∧
      labelAddress? (emitted outcomes) b t token = some address ∧
      (emitted outcomes)[s.offset + l.position]? =
        some (renderLine options l texts, l.sourceLine) ∧
      texts.length = l.operands.length ∧
      texts[i]? = some (intText
        (if c.isRelative then address - (s.offset + l.position : Nat) else address)) := by
  have hreading := Reading.valid_of_assemble hrun hvalid
  obtain ⟨outcomes, houtcomes, rfl⟩ := Reading.assemble_result hreading hrun
  have hproblems := no_problems_of_valid hvalid
  obtain ⟨j, hjk, htj⟩ := getElem?_of_mem_take ht
  obtain ⟨b, hb, hbt⟩ := chosen_body hreading htj
  obtain ⟨home, p, rfl⟩ := eq_label_of_symbol? hd hlabel
  have hbody : b.toSection.symbol? token = some (.label home token p) := by
    rw [hbt] at hd
    exact hd
  obtain ⟨address, haddress, hsum⟩ := labelAddress?_eq houtcomes hproblems htj hbt hbody
  have hfind := find?_of_visible (stands_of_chosen htj hjk hd)
  have hunalias : ((Reading.of source).scopeAt options.sections k).unalias token = token :=
    unalias_eq_self halias
  have hword := shape_of_isLabelName (isLabelName_of_symbol? hb hbody) hregister hdevice
  obtain ⟨signature', resolved, hsignature', harity, hresolved, hemitted⟩ :=
    emitted_at houtcomes hproblems hs (chosen_position hreading hs hl)
  rw [hsignature] at hsignature'
  cases hsignature'
  have hforall := resolveOperands_forall₂ hresolved
  have hplace : (l.operands.zip signature.constraints)[i]? = some (token, c) := by
    rw [List.getElem?_zip_eq_some]
    exact ⟨htoken, hc⟩
  obtain ⟨r, hr, hoperand⟩ := forall₂_getElem? hforall hplace
  have htext := resolveOperand_label hsubstitutes hunalias hword hfind hoperand
  refine ⟨outcomes, b, resolved.map Resolved.text, address, houtcomes, rfl, hb, hbt, haddress,
    hemitted, ?_, ?_⟩
  · rw [List.length_map, ← hforall.length_eq, List.length_zip, ← harity, Signature.arity,
      Nat.min_self]
  · rw [List.getElem?_map, hr, Option.map_some, htext, hsum, Nat.add_comm s.offset,
      Int.natCast_add]

/-- A relative jump back to a label on a line of its own. -/
def backJump : String := "yield\nsection loop\nalias pump d0\nagain:\nyield\njr again"

/-- The first section of `backJump`, placed. -/
def backJumpFirst : Section where
  name := "(default)"
  lines := [⟨"yield", [], 0, 0, none⟩]

/-- The second section of `backJump`, placed. -/
def backJumpLoop : Section where
  name := "loop"
  ordinal := 1
  aliases := [("pump", "d0")]
  symbols := [.label 1 "again" 1]
  lines := [⟨"alias", ["pump", "d0"], 2, 0, none⟩, ⟨"yield", [], 4, 1, none⟩,
    ⟨"jr", ["again"], 5, 2, none⟩]
  offset := 1

theorem label_operand_address_backJump :
    ((Reading.of backJump).assemble .standard [] {}).result =
      .ok ⟨["yield", "alias pump d0", "yield", "jr -1"], {}, [backJumpFirst, backJumpLoop]⟩ ∧
    ∃ outcomes b texts, ∃ address : Nat,
      (Reading.of backJump).outcomes .standard {} = .ok outcomes ∧
      ["yield", "alias pump d0", "yield", "jr -1"] = (emitted outcomes).map Prod.fst ∧
      b ∈ bodies backJump ∧ backJumpLoop = { b.toSection with offset := 1 } ∧
      labelAddress? (emitted outcomes) b backJumpLoop "again" = some address ∧
      (emitted outcomes)[3]? =
        some (renderLine {} ⟨"jr", ["again"], 5, 2, none⟩ texts, 5) ∧
      texts.length = 1 ∧ texts[0]? = some (intText (address - 3)) := by
  have hrun : ((Reading.of backJump).assemble .standard [] {}).result =
      .ok ⟨["yield", "alias pump d0", "yield", "jr -1"], {}, [backJumpFirst, backJumpLoop]⟩ := by
    decide +kernel
  have hsignature : Table.standard.lookup "jr" = some ⟨"jr", [InstructionSet.rel]⟩ := by
    decide +kernel
  have halias : ∀ u ∈ [backJumpFirst, backJumpLoop], u.alias? "again" = none := by decide
  have hrelative : InstructionSet.rel.isRelative = true := by decide
  obtain ⟨outcomes, b, texts, address, houtcomes, hlines, hb, hloop, haddress, hemitted, hlength,
      htext⟩ :=
    label_operand_address hrun (k := 1) (i := 0) (s := backJumpLoop) (t := backJumpLoop)
      (l := ⟨"jr", ["again"], 5, 2, none⟩) rfl rfl (by decide) hsignature rfl rfl halias
      (by decide) (by decide) (by decide) (List.mem_of_getElem? (i := 1) rfl) rfl rfl
  rw [if_pos hrelative] at htext
  exact ⟨hrun, outcomes, b, texts, address, houtcomes, hlines, hb, hloop, haddress, hemitted,
    hlength, htext⟩

end ChipAsm
