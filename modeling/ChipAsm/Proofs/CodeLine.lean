import ChipAsm.Proofs.Line
import ChipAsm.Proofs.Reading

/-!
# What is kept of a code line

A code line that has operands is meant to be an instruction.  It is kept as one exactly when it has a
mnemonic, and it is reported exactly when its label is taken.  What remains is a line whose label is
new and is followed by a word that is no mnemonic: such a line is of the grammar, and its operands
are lost without a remark.  `kept_or_reported_iff` says that no other line is lost.
-/

namespace ChipAsm

open ChipAsm.Text

namespace Reader

/-- The reader in front of the line `n` of a source. -/
def before (source : String) (n : Nat) : Reader := ((linesOf source).take n).foldl step {}

theorem before_step {source : String} {n : Nat} {text : List Char}
    (h : (linesOf source)[n]? = some text) : before source (n + 1) = (before source n).step text := by
  rw [before, List.take_add_one, h, List.foldl_append]
  rfl

/-- Exactly one instruction was added to the current section, and it holds the operands. -/
def Keeps (r r' : Reader) (operands : List String) : Prop :=
  ∃ instruction : Instruction, instruction.operands = operands ∧
    r'.current.lines = r.current.lines ++ [instruction] ∧ r'.closed = r.closed

/-- One more error was recorded. -/
def Reports (r r' : Reader) : Prop :=
  ∃ remark, r'.diagnostics.errors = r.diagnostics.errors ++ [remark]

theorem step_of_code {r : Reader} {text : List Char} {line : Line} {label opcode : Option String}
    (h : Line.ofText? text = some line) (hhead : line.head = .code label opcode) :
    (r.step text).current = (r.code label opcode line.operands line.comment).current ∧
      (r.step text).closed = (r.code label opcode line.operands line.comment).closed ∧
      (r.step text).diagnostics = (r.mark label).diagnostics := by
  have htake : r.take line = r.code label opcode line.operands line.comment := by
    simp only [take, hhead]
  rw [step_of_some h, htake]
  refine ⟨rfl, rfl, ?_⟩
  cases opcode <;> rfl

theorem mark_lines (r : Reader) (label : Option String) :
    (r.mark label).current.lines = r.current.lines ∧ (r.mark label).closed = r.closed := by
  cases label with
  | none => exact ⟨rfl, rfl⟩
  | some name =>
      rw [mark, addSymbol_eq]
      exact ⟨rfl, rfl⟩

/-- A code line is kept as an instruction exactly when it has a mnemonic. -/
theorem keeps_iff {r : Reader} {text : List Char} {line : Line} {label opcode : Option String}
    (h : Line.ofText? text = some line) (hhead : line.head = .code label opcode) :
    r.Keeps (r.step text) line.operands ↔ opcode ≠ none := by
  obtain ⟨hcurrent, hclosed, -⟩ := step_of_code (r := r) h hhead
  obtain ⟨hlines, hmarkClosed⟩ := r.mark_lines label
  cases opcode with
  | none =>
      constructor
      · rintro ⟨instruction, -, happend, -⟩
        rw [hcurrent] at happend
        simp only [code, hlines] at happend
        have hlength := congrArg List.length happend
        simp at hlength
      · intro hne
        exact absurd rfl hne
  | some opcode =>
      refine ⟨fun _ => by simp, fun _ => ?_⟩
      refine ⟨⟨opcode, line.operands, (r.mark label).line, (r.mark label).position,
        line.comment⟩, rfl, ?_, ?_⟩
      · rw [hcurrent]
        simp only [code, addLine, Section.addLine, hlines]
      · rw [hclosed]
        exact hmarkClosed

/-- A code line is reported exactly when its label is taken. -/
theorem reports_iff {r : Reader} {text : List Char} {line : Line} {label opcode : Option String}
    (h : Line.ofText? text = some line) (hhead : line.head = .code label opcode) :
    r.Reports (r.step text) ↔ ∃ name ∈ label, name ∈ r.symbolNames := by
  obtain ⟨-, -, hdiagnostics⟩ := step_of_code (r := r) h hhead
  rw [Reports, hdiagnostics]
  cases label with
  | none => simp [mark]
  | some name =>
      simp only [mark, addSymbol, Symbol.name, Option.mem_def, Option.some.injEq,
        exists_eq_left']
      by_cases htaken : name ∈ r.symbolNames
      · simp [fail, Diagnostics.fail, htaken]
      · simp [htaken]

end Reader

/-- A code line with operands has no mnemonic exactly when a word that is none stands behind its
label.  Its operands are kept in an instruction, or an error is recorded, exactly when it has a
mnemonic or its label is taken. -/
theorem kept_or_reported_iff {source : String} {n : Nat} {text : List Char} {line : Line}
    {label opcode : Option String} (htext : (linesOf source)[n]? = some text)
    (hline : Line.ofText? text = some line) (hhead : line.head = .code label opcode)
    (hoperands : line.operands ≠ []) :
    (opcode = none ↔ Line.lacksMnemonic (stripChars text) = true) ∧
      ((Reader.before source n).Keeps (Reader.before source (n + 1)) line.operands ∨
          (Reader.before source n).Reports (Reader.before source (n + 1)) ↔
        Line.lacksMnemonic (stripChars text) = false ∨
          ∃ name ∈ label, name ∈ (Reader.before source n).symbolNames) := by
  obtain ⟨hread, hstops⟩ := stopsAt_of_ofText? hline
  have hopcode := Line.opcode_eq_none_iff hstops hread hhead hoperands
  have hnext : Reader.before source (n + 1) = (Reader.before source n).step text := by
    simp [Reader.before, List.take_add_one, htext]
  refine ⟨hopcode, ?_⟩
  rw [hnext, Reader.keeps_iff hline hhead, Reader.reports_iff hline hhead, Ne, hopcode,
    Bool.not_eq_true]

/-- The second line is lost: its label is new, and `5` is no mnemonic. -/
theorem kept_or_reported_iff_at_five :
    (linesOf "a: yield\nb: 5 6")[1]? = some "b: 5 6".toList ∧
      Line.ofText? "b: 5 6".toList = some ⟨.code (some "b") none, ["5", "6"], none⟩ ∧
      ¬ ((Reader.before "a: yield\nb: 5 6" 1).Keeps (Reader.before "a: yield\nb: 5 6" 2)
          ["5", "6"] ∨
        (Reader.before "a: yield\nb: 5 6" 1).Reports (Reader.before "a: yield\nb: 5 6" 2)) := by
  have htext : (linesOf "a: yield\nb: 5 6")[1]? = some "b: 5 6".toList := by decide +kernel
  have hline : Line.ofText? "b: 5 6".toList = some ⟨.code (some "b") none, ["5", "6"], none⟩ := by
    decide +kernel
  have hlost := (kept_or_reported_iff htext hline rfl (by decide)).2
  refine ⟨htext, hline, ?_⟩
  rw [hlost]
  decide +kernel

/-- Operands behind a label are of the grammar, and are lost without an error. -/
theorem operands_lost_behind_label :
    Line.ofText? "loop: 5 6".toList = some ⟨.code (some "loop") none, ["5", "6"], none⟩ ∧
      (Reading.of "loop: 5 6").valid = true ∧
      (Reading.of "loop: 5 6").program.sections.flatMap Section.lines = [] := by
  decide +kernel

end ChipAsm
