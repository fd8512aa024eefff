import ChipAsm.Proofs.Line
import ChipAsm.Reading

/-!
# What a source says

A source is a list of lines, and every line of the grammar makes one statement: it defines a
constant, binds an alias, opens a section, or is code.  A directive with the wrong operands says
nothing.  Blank lines and lines that are not of the grammar are left out, but they are counted.

The lines between two openings are the body of a section, and the bodies are numbered from zero.  What
a section holds is told by its body alone: the instructions that the lines hold, in order and numbered
from zero, the symbols that they define, where a label marks the instruction behind it, and the last
target of every alias.  Only a symbol whose name was defined before, in this body or an earlier one, is
left out.

Nothing here speaks of the reader.  All definitions are by recursion on the lines, and the lemmas say
what one more line adds.
-/

namespace ChipAsm

open ChipAsm.Text ChipAsm.Token

/-! ## Statements -/

/-- What a line says. -/
inductive Statement where
  /-- A constant is defined. -/
  | constant (name value : String)
  /-- A name is bound to an operand. -/
  | binding (name target : String)
  /-- A section is opened, with the names of the sections it requires. -/
  | opening (name : String) (required : List String)
  /-- A label is defined, or an instruction is given, or both. -/
  | code (label opcode : Option String) (operands : List String)
  /-- A directive that cannot be used. -/
  | faulty
deriving Repr, DecidableEq

/-- The names that the words behind the name of a section require. -/
def requiredIn : List String → List String
  | word :: name :: names => if lower word = "requires" then name :: names else []
  | _ => []

/-- What a directive with the given word and operands says. -/
def Statement.ofDirective (word : String) (operands : List String) : Statement :=
  if word = "define" then
    match operands with
    | [name, value] => .constant name value
    | _ => .faulty
  else if word = "alias" then
    match operands with
    | [name, target] => .binding name target
    | _ => .faulty
  else if word = "section" then
    match operands with
    | name :: words => .opening name (requiredIn words)
    | [] => .faulty
  else .faulty

/-- What a line says. -/
def Line.statement (line : Line) : Statement :=
  match line.head with
  | .directive word => .ofDirective word line.operands
  | .code label opcode => .code label opcode line.operands

namespace Statement

/-- The mnemonic and the operands of the instruction that is given. -/
def instruction? : Statement → Option (String × List String)
  | .binding name target => if isDevice target then some ("alias", [name, target]) else none
  | .code _ (some opcode) operands => some (opcode, operands)
  | _ => none

/-- The symbol that is defined behind `position` instructions of the section with the ordinal
`home`. -/
def symbol? (home position : Nat) : Statement → Option Symbol
  | .constant name value => some (.constant home name value)
  | .code (some name) _ _ => some (.label home name position)
  | _ => none

/-- The name and the target of the alias that is bound. -/
def alias? : Statement → Option (String × String)
  | .binding name target => some (name, target)
  | _ => none

/-- The name of the section that is opened, and what it requires. -/
def opening? : Statement → Option (String × List String)
  | .opening name required => some (name, required)
  | _ => none

end Statement

/-! ## Lines and bodies -/

/-- A line of the grammar with its number in the source. -/
structure SourceLine where
  /-- The number, counted from zero. -/
  number : Nat
  /-- The line. -/
  line : Line
deriving Repr, DecidableEq

/-- The line that a text holds, the blanks around it disregarded. -/
def Line.ofText? (text : List Char) : Option Line :=
  match stripChars text with
  | [] => none
  | cs => Line.ofChars? cs

/-- The lines that texts hold, the first of which has the number `next`. -/
def numberedFrom : Nat → List (List Char) → List SourceLine
  | _, [] => []
  | next, text :: texts =>
    match Line.ofText? text with
    | some line => ⟨next, line⟩ :: numberedFrom (next + 1) texts
    | none => numberedFrom (next + 1) texts

/-- The lines of a source. -/
def sourceLines (source : String) : List SourceLine := numberedFrom 0 (linesOf source)

/-- A section as it stands in a source. -/
structure Body where
  /-- The name. -/
  name : String := Section.defaultName
  /-- The number of bodies before it. -/
  ordinal : Nat := 0
  /-- The names of the sections it requires. -/
  required : List String := []
  /-- The lines behind its opening. -/
  lines : List SourceLine := []
deriving Repr, DecidableEq

/-- The body with one more line. -/
def Body.push (b : Body) (l : SourceLine) : Body := { b with lines := b.lines ++ [l] }

/-- The bodies of a source whose first lines are those of `b`. -/
def bodiesFrom (b : Body) : List SourceLine → List Body
  | [] => [b]
  | l :: rest =>
    match l.line.statement.opening? with
    | some (name, required) =>
      b :: bodiesFrom { name, ordinal := b.ordinal + 1, required } rest
    | none => bodiesFrom (b.push l) rest

/-- The bodies of a source.  The first has no opening. -/
def bodies (source : String) : List Body := bodiesFrom {} (sourceLines source)

/-! ## The section of a body -/

/-- The instruction of a line behind `position` others. -/
def SourceLine.instruction? (position : Nat) (l : SourceLine) : Option Instruction :=
  l.line.statement.instruction?.map fun (opcode, operands) =>
    ⟨opcode, operands, l.number, position, l.line.comment⟩

/-- The instructions of lines, behind `position` others. -/
def instructionsFrom (position : Nat) : List SourceLine → List Instruction
  | [] => []
  | l :: rest =>
    match l.instruction? position with
    | some instruction => instruction :: instructionsFrom (position + 1) rest
    | none => instructionsFrom position rest

/-- The symbols that lines define, behind `position` instructions of the section with the ordinal
`home`. -/
def definitionsFrom (home position : Nat) : List SourceLine → List Symbol
  | [] => []
  | l :: rest =>
    (l.line.statement.symbol? home position).toList
      ++ definitionsFrom home (position + (l.instruction? position).toList.length) rest

/-- The symbols whose name is neither taken nor that of an earlier one. -/
def fresh (taken : List String) : List Symbol → List Symbol
  | [] => []
  | d :: rest =>
    if d.name ∈ taken then fresh taken rest else d :: fresh (taken ++ [d.name]) rest

namespace Body

/-- The instructions of a body. -/
def instructions (b : Body) : List Instruction := instructionsFrom 0 b.lines

/-- The symbols that a body defines. -/
def definitions (b : Body) : List Symbol := definitionsFrom b.ordinal 0 b.lines

/-- The aliases that a body binds, each with its last target. -/
def aliases (b : Body) : List (String × String) :=
  (b.lines.filterMap fun l => l.line.statement.alias?).foldl
    (fun bound pair => bindKey pair.1 pair.2 bound) []

/-- The section of a body, where the names in `taken` are defined before it. -/
def sectionBehind (taken : List String) (b : Body) : Section where
  name := b.name
  ordinal := b.ordinal
  required := b.required
  aliases := b.aliases
  symbols := fresh taken b.definitions
  lines := b.instructions

/-- The section of a body that defines every symbol once and none that is defined before it. -/
def toSection (b : Body) : Section where
  name := b.name
  ordinal := b.ordinal
  required := b.required
  aliases := b.aliases
  symbols := b.definitions
  lines := b.instructions

end Body

/-- The sections of bodies in a row, where the names in `taken` are defined before them. -/
def sectionsBehind (taken : List String) : List Body → List Section
  | [] => []
  | b :: rest =>
    let s := b.sectionBehind taken
    s :: sectionsBehind (taken ++ s.symbols.map Symbol.name) rest

/-! ## Texts -/

theorem stopsAt_of_ofText? {text : List Char} {line : Line} (h : Line.ofText? text = some line) :
    Line.ofChars? (stripChars text) = some line ∧ Line.StopsAt isBlank (stripChars text) := by
  rw [Line.ofText?] at h
  cases hcs : stripChars text with
  | nil => rw [hcs] at h; cases h
  | cons c cs =>
      rw [hcs] at h
      refine ⟨h, ?_⟩
      intro d hd
      cases hd
      exact not_blank_of_stripChars hcs

/-- A label of a line is of the form that the grammar asks for. -/
theorem isLabelName_of_statement {text : List Char} {line : Line} {name : String}
    {opcode : Option String} {operands : List String} (h : Line.ofText? text = some line)
    (hstatement : line.statement = .code (some name) opcode operands) :
    Line.isLabelName name.toList = true := by
  obtain ⟨hread, hstops⟩ := stopsAt_of_ofText? h
  rw [Line.statement] at hstatement
  split at hstatement
  · rename_i word hhead
    unfold Statement.ofDirective at hstatement
    repeat' split at hstatement
    all_goals cases hstatement
  · rename_i label opcode' hhead
    cases hstatement
    exact Line.isLabelName_of_ofChars? hstops hread hhead

/-! ## Bodies line by line -/

/-- The instructions of later lines are numbered behind those of earlier lines. -/
theorem instructionsFrom_append (position : Nat) (xs ys : List SourceLine) :
    instructionsFrom position (xs ++ ys) =
      instructionsFrom position xs
        ++ instructionsFrom (position + (instructionsFrom position xs).length) ys := by
  induction xs generalizing position with
  | nil => rfl
  | cons l xs ih =>
      rw [List.cons_append, instructionsFrom, instructionsFrom]
      cases l.instruction? position with
      | none => exact ih position
      | some instruction =>
          simp only [ih, List.cons_append, List.length_cons]
          rw [Nat.add_right_comm, Nat.add_assoc]

/-- The labels of later lines stand behind the instructions of earlier lines. -/
theorem definitionsFrom_append (home position : Nat) (xs ys : List SourceLine) :
    definitionsFrom home position (xs ++ ys) =
      definitionsFrom home position xs
        ++ definitionsFrom home (position + (instructionsFrom position xs).length) ys := by
  induction xs generalizing position with
  | nil => rfl
  | cons l xs ih =>
      rw [List.cons_append, definitionsFrom, definitionsFrom, instructionsFrom]
      cases l.instruction? position with
      | none => simp [ih]
      | some instruction =>
          simp [ih, Nat.add_assoc, Nat.add_comm 1]

/-- Of the later symbols those are kept whose names the earlier symbols have not taken. -/
theorem fresh_append (taken : List String) (xs ys : List Symbol) :
    fresh taken (xs ++ ys) =
      fresh taken xs ++ fresh (taken ++ (fresh taken xs).map Symbol.name) ys := by
  induction xs generalizing taken with
  | nil => simp [fresh]
  | cons d xs ih =>
      rw [List.cons_append, fresh, fresh]
      split
      · exact ih taken
      · simp [ih]

/-- The section with what one more line says, where the names in `taken` are defined before it and the
next instruction is at `position`. -/
def Section.absorb (taken : List String) (position : Nat) (l : SourceLine) (s : Section) : Section :=
  { s with
    aliases := l.line.statement.alias?.toList.foldl
      (fun bound pair => bindKey pair.1 pair.2 bound) s.aliases
    symbols := s.symbols ++ fresh taken (l.line.statement.symbol? s.ordinal position).toList
    lines := s.lines ++ (l.instruction? position).toList }

/-- One more line of a body adds to its section what the line says, and nothing else changes. -/
theorem Body.sectionBehind_push (taken : List String) (b : Body) (l : SourceLine) :
    (b.push l).sectionBehind taken =
      (b.sectionBehind taken).absorb
        (taken ++ (b.sectionBehind taken).symbols.map Symbol.name) (b.sectionBehind taken).size l := by
  have hlines : (b.push l).instructions =
      b.instructions ++ (l.instruction? b.instructions.length).toList := by
    simp only [Body.instructions, Body.push, instructionsFrom_append, Nat.zero_add]
    congr 1
    simp only [instructionsFrom]
    cases l.instruction? (instructionsFrom 0 b.lines).length <;> rfl
  have hdefs : (b.push l).definitions =
      b.definitions ++ (l.line.statement.symbol? b.ordinal b.instructions.length).toList := by
    simp [Body.definitions, Body.push, definitionsFrom_append, definitionsFrom, Body.instructions]
  have haliases : (b.push l).aliases =
      l.line.statement.alias?.toList.foldl
        (fun bound pair => bindKey pair.1 pair.2 bound) b.aliases := by
    simp only [Body.aliases, Body.push, List.filterMap_append, List.foldl_append]
    cases h : l.line.statement.alias? <;> simp [h]
  simp only [Body.sectionBehind, Section.absorb, Section.size, hlines, hdefs, haliases,
    fresh_append]
  rfl

end ChipAsm
