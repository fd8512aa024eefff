import Mathlib.Data.List.Flatten
import ChipAsm.Proofs.Placement
import ChipAsm.Proofs.Reading

/-!
# Source lines and positions

The lines of a source are numbered upwards, and nothing that is done with them changes their order:
they are cut into bodies, some of them give instructions, and some sections are left out.  So the
source lines of the instructions of a run increase (`chosen_sourceLines`), and an instruction is told
from all others by its source line.

The instructions of a body are numbered from zero, so the position of an instruction is its index
(`instructionsFrom_position`).  A label marks the first instruction from its line on, and holds the
position of that instruction (`label_position`).
-/

namespace ChipAsm

open ChipAsm.Text

/-! ## Numbers of lines -/

theorem le_number_of_mem {texts : List (List Char)} :
    ∀ {next : Nat} {l : SourceLine}, l ∈ numberedFrom next texts → next ≤ l.number := by
  induction texts with
  | nil =>
      intro next l hl
      cases hl
  | cons text texts ih =>
      intro next l hl
      rw [numberedFrom] at hl
      cases htext : Line.ofText? text with
      | none =>
          rw [htext] at hl
          exact Nat.le_of_succ_le (ih hl)
      | some line =>
          rw [htext] at hl
          rcases List.mem_cons.1 hl with rfl | hl
          · exact Nat.le_refl _
          · exact Nat.le_of_succ_le (ih hl)

theorem ofText?_of_mem {texts : List (List Char)} :
    ∀ {next : Nat} {l : SourceLine}, l ∈ numberedFrom next texts →
      ∃ text ∈ texts, Line.ofText? text = some l.line := by
  induction texts with
  | nil =>
      intro next l hl
      cases hl
  | cons text texts ih =>
      intro next l hl
      have hlater : l ∈ numberedFrom (next + 1) texts →
          ∃ text' ∈ text :: texts, Line.ofText? text' = some l.line := by
        intro hl
        obtain ⟨text', htext', hline⟩ := ih hl
        exact ⟨text', List.mem_cons_of_mem _ htext', hline⟩
      rw [numberedFrom] at hl
      cases htext : Line.ofText? text with
      | none =>
          rw [htext] at hl
          exact hlater hl
      | some line =>
          rw [htext] at hl
          rcases List.mem_cons.1 hl with rfl | hl
          · exact ⟨text, List.mem_cons_self .., htext⟩
          · exact hlater hl

theorem numberedFrom_pairwise (texts : List (List Char)) (next : Nat) :
    (numberedFrom next texts).Pairwise (fun l l' => l.number < l'.number) := by
  induction texts generalizing next with
  | nil => exact .nil
  | cons text texts ih =>
      rw [numberedFrom]
      cases Line.ofText? text with
      | none => exact ih (next + 1)
      | some line => exact .cons (fun l hl => le_number_of_mem hl) (ih (next + 1))

/-- The bodies are made up of all lines but those that open a section. -/
theorem bodiesFrom_lines_eq (ls : List SourceLine) :
    ∀ b : Body, (bodiesFrom b ls).flatMap Body.lines =
      b.lines ++ ls.filter fun l => l.line.statement.opening?.isNone := by
  induction ls with
  | nil =>
      intro b
      simp [bodiesFrom]
  | cons l ls ih =>
      intro b
      rw [bodiesFrom]
      cases hopening : l.line.statement.opening? with
      | none => simp [ih, Body.push, hopening]
      | some opened => simp [ih, hopening]

theorem bodiesFrom_lines (ls : List SourceLine) (b : Body) :
    ((bodiesFrom b ls).flatMap Body.lines).Sublist (b.lines ++ ls) := by
  rw [bodiesFrom_lines_eq]
  exact (List.Sublist.refl _).append List.filter_sublist

/-- The numbers of the lines of the bodies of a source increase. -/
theorem bodies_pairwise (source : String) :
    ((bodies source).flatMap Body.lines).Pairwise (fun l l' => l.number < l'.number) :=
  (numberedFrom_pairwise _ _).sublist (bodiesFrom_lines (sourceLines source) {})

/-! ## Source lines of instructions -/

theorem instructionsFrom_sourceLines (ls : List SourceLine) :
    ∀ position : Nat, ((instructionsFrom position ls).map Instruction.sourceLine).Sublist
      (ls.map SourceLine.number) := by
  induction ls with
  | nil => exact fun _ => .slnil
  | cons l ls ih =>
      intro position
      rw [instructionsFrom, List.map_cons]
      cases hl : l.instruction? position with
      | none => exact (ih position).cons _
      | some instruction =>
          obtain ⟨_, -, rfl⟩ := Option.map_eq_some_iff.1 hl
          exact (ih (position + 1)).cons_cons _

/-- What the sections of bodies hold is told by the bodies, if the names taken before do not matter. -/
theorem sectionsBehind_map {β : Type} {f : Section → β} {g : Body → β}
    (h : ∀ (b : Body) (taken : List String), f (b.sectionBehind taken) = g b) (bs : List Body) :
    ∀ taken : List String, (sectionsBehind taken bs).map f = bs.map g := by
  induction bs with
  | nil => exact fun _ => rfl
  | cons b bs ih =>
      intro taken
      rw [sectionsBehind, List.map_cons, List.map_cons, h, ih]

theorem sectionsBehind_flatMap {β : Type} {f : Section → List β} {g : Body → List β}
    (h : ∀ (b : Body) (taken : List String), f (b.sectionBehind taken) = g b) (bs : List Body)
    (taken : List String) : (sectionsBehind taken bs).flatMap f = bs.flatMap g := by
  rw [List.flatMap_def, List.flatMap_def, sectionsBehind_map h]

theorem sectionsBehind_lines (bs : List Body) (taken : List String) :
    (sectionsBehind taken bs).flatMap Section.lines = bs.flatMap Body.instructions :=
  sectionsBehind_flatMap (fun _ _ => rfl) bs taken

theorem instructions_sourceLines (bs : List Body) :
    ((bs.flatMap Body.instructions).map Instruction.sourceLine).Sublist
      ((bs.flatMap Body.lines).map SourceLine.number) := by
  rw [List.map_flatMap, List.map_flatMap]
  exact List.Sublist.flatMap_right bs fun b _ => instructionsFrom_sourceLines b.lines 0

/-- The source lines of the instructions of a program increase. -/
theorem program_sourceLines (source : String) :
    ((Reading.of source).program.sections.flatMap Section.lines).Pairwise
      (fun l l' => l.sourceLine < l'.sourceLine) := by
  have hnumbers := List.pairwise_map.2 (bodies_pairwise source)
  have hbodies := hnumbers.sublist (instructions_sourceLines (bodies source))
  rw [← sectionsBehind_lines _ [], List.pairwise_map] at hbodies
  rw [sections_eq]
  exact hbodies.sublist (List.filter_sublist.flatMap _)

theorem layoutFrom_lines (sections : List Section) (next : Nat) :
    (layoutFrom next sections).flatMap Section.lines = sections.flatMap Section.lines := by
  rw [List.flatMap_def, map_layoutFrom fun _ _ => rfl, ← List.flatMap_def]

/-- The source lines of the instructions of a run increase. -/
theorem chosen_sourceLines (source : String) (given : List String) :
    (((Reading.of source).chosen given).flatMap Section.lines).Pairwise
      (fun l l' => l.sourceLine < l'.sourceLine) := by
  rw [Reading.chosen, layoutFrom_lines]
  exact (program_sourceLines source).sublist (List.filter_sublist.flatMap _)

/-! ## Positions -/

theorem instructionsFrom_position (ls : List SourceLine) :
    ∀ {position i : Nat} {l : Instruction},
      (instructionsFrom position ls)[i]? = some l → l.position = position + i := by
  induction ls with
  | nil =>
      intro position i l h
      cases h
  | cons first ls ih =>
      intro position i l h
      rw [instructionsFrom] at h
      cases hfirst : first.instruction? position with
      | none =>
          rw [hfirst] at h
          exact ih h
      | some instruction =>
          rw [hfirst] at h
          cases i with
          | zero =>
              cases h
              obtain ⟨_, -, rfl⟩ := Option.map_eq_some_iff.1 hfirst
              rfl
          | succ i =>
              have hposition := ih h
              omega

theorem Statement.symbol?_eq_label {statement : Statement} {home home' position : Nat} {name : String}
    {p : Int} (h : statement.symbol? home position = some (.label home' name p)) :
    ∃ opcode operands, statement = .code (some name) opcode operands ∧ p = position := by
  cases statement with
  | code label opcode operands =>
      cases label with
      | none => cases h
      | some label =>
          cases h
          exact ⟨opcode, operands, rfl, rfl⟩
  | constant name value => cases h
  | binding name target => cases h
  | opening name required => cases h
  | faulty => cases h

/-- The line defines the label. -/
def Statement.marks (name : String) : Statement → Bool
  | .code (some label) _ _ => label = name
  | _ => false

theorem Statement.marks_iff {statement : Statement} {name : String} :
    statement.marks name = true ↔
      ∃ opcode operands, statement = .code (some name) opcode operands := by
  cases statement with
  | code label opcode operands =>
      cases label with
      | none => simp [marks]
      | some label => simp [marks]
  | constant name value => simp [marks]
  | binding name target => simp [marks]
  | opening name required => simp [marks]
  | faulty => simp [marks]

/-- A label that lines define holds the number of instructions before the line that defines it. -/
theorem find?_definitionsFrom {home home' : Nat} {name : String} {p : Int} (ls : List SourceLine) :
    ∀ {position : Nat},
      (definitionsFrom home position ls).find? (fun d => d.name = name) = some (.label home' name p) →
        (∃ l ∈ ls, l.line.statement.marks name = true) ∧
        p = (position + (instructionsFrom position
          (ls.takeWhile fun l => !l.line.statement.marks name)).length : Nat) := by
  induction ls with
  | nil =>
      intro position h
      cases h
  | cons first ls ih =>
      intro position h
      rw [definitionsFrom, List.find?_append] at h
      cases hmarks : first.line.statement.marks name with
      | true =>
          obtain ⟨opcode, operands, hstatement⟩ := Statement.marks_iff.1 hmarks
          refine ⟨⟨first, List.mem_cons_self .., hmarks⟩, ?_⟩
          simp [hstatement, Statement.symbol?, Symbol.name] at h
          simp [hmarks, instructionsFrom, ← h.2]
      | false =>
          have hskip : (first.line.statement.symbol? home position).toList.find?
              (fun d => d.name = name) = none := by
            cases hfirst : (first.line.statement.symbol? home position).toList.find?
                (fun d => d.name = name) with
            | none => rfl
            | some d =>
                rw [hfirst, Option.some_or] at h
                cases h
                have hsymbol := Option.mem_toList.1 (List.mem_of_find?_eq_some hfirst)
                obtain ⟨opcode, operands, hstatement, -⟩ := Statement.symbol?_eq_label hsymbol
                rw [Statement.marks_iff.2 ⟨opcode, operands, hstatement⟩] at hmarks
                cases hmarks
          rw [hskip, Option.none_or] at h
          obtain ⟨⟨l, hl, hl'⟩, rfl⟩ := ih h
          refine ⟨⟨l, List.mem_cons_of_mem _ hl, hl'⟩, ?_⟩
          rw [List.takeWhile_cons, hmarks, Bool.not_false, if_pos rfl, instructionsFrom]
          cases first.instruction? position with
          | none => rfl
          | some instruction =>
              simp only [Option.toList_some, List.length_cons, List.length_nil, Nat.zero_add]
              omega

/-- The first instruction of lines is that of the first line that holds one. -/
theorem head?_instructionsFrom (ls : List SourceLine) (position : Nat) :
    (instructionsFrom position ls).head?.map Instruction.sourceLine =
      (ls.find? fun l => l.line.statement.instruction?.isSome).map SourceLine.number := by
  induction ls with
  | nil => rfl
  | cons l ls ih =>
      rw [instructionsFrom, List.find?_cons, SourceLine.instruction?]
      cases l.line.statement.instruction? with
      | none => exact ih
      | some given => rfl

/-- The line of the instruction that a label of a body marks: the first that holds one, from the
line of the label on. -/
def Body.lineAt? (b : Body) (name : String) : Option SourceLine :=
  (b.lines.dropWhile fun l => !l.line.statement.marks name).find?
    fun l => l.line.statement.instruction?.isSome

/-- A label of a body holds the position of the instruction that it marks, and if it marks none, the
number of instructions. -/
theorem label_position {b : Body} {home : Nat} {name : String} {p : Int}
    (h : b.toSection.symbol? name = some (.label home name p)) :
    ∃ q : Nat, p = q ∧ q ≤ b.instructions.length ∧
      b.instructions[q]?.map Instruction.sourceLine = (b.lineAt? name).map SourceLine.number := by
  obtain ⟨-, hp⟩ := find?_definitionsFrom b.lines h
  rw [Nat.zero_add] at hp
  have hsplit := instructionsFrom_append 0
    (b.lines.takeWhile fun l => !l.line.statement.marks name)
    (b.lines.dropWhile fun l => !l.line.statement.marks name)
  rw [List.takeWhile_append_dropWhile, ← Body.instructions] at hsplit
  refine ⟨_, hp, ?_, ?_⟩
  · rw [hsplit, List.length_append]
    exact Nat.le_add_right ..
  · rw [hsplit, List.getElem?_append_right (Nat.le_refl _), Nat.sub_self, ← List.head?_eq_getElem?,
      head?_instructionsFrom]
    rfl

/-- The name of a label of a source is the name of a label. -/
theorem isLabelName_of_symbol? {source : String} {b : Body} {home : Nat} {name : String} {p : Int}
    (hb : b ∈ bodies source) (h : b.toSection.symbol? name = some (.label home name p)) :
    Line.isLabelName name.toList = true := by
  obtain ⟨⟨l, hl, hmarks⟩, -⟩ := find?_definitionsFrom b.lines h
  obtain ⟨opcode, operands, hstatement⟩ := Statement.marks_iff.1 hmarks
  have hline : l ∈ sourceLines source :=
    (bodiesFrom_lines (sourceLines source) {}).subset (List.mem_flatMap.2 ⟨b, hb, hl⟩)
  obtain ⟨text, -, htext⟩ := ofText?_of_mem hline
  exact isLabelName_of_statement htext hstatement

end ChipAsm
