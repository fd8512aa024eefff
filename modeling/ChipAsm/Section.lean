import ChipAsm.Symbol
import ChipAsm.Text.Quoted

/-!
# Sections

A section is a named run of instructions with the aliases and symbols that were defined in it, and
the names of the sections it requires.  Its offset is the position of its first instruction in the
output; it is zero until the section is placed.  Its ordinal tells it from all other sections of the
source.

Aliases and symbols stand in the order in which their names were first bound.
-/

namespace ChipAsm

open ChipAsm.Text

/-- An instruction of a source. -/
structure Instruction where
  /-- The mnemonic as it is written. -/
  opcode : String
  /-- The operands as they are written. -/
  operands : List String
  /-- The source line, counted from zero. -/
  sourceLine : Nat
  /-- The position in its section, counted from zero. -/
  position : Nat
  /-- The comment behind it. -/
  comment : Option String
deriving Repr, DecidableEq

/-- A section of a program. -/
structure Section where
  /-- The name as it is written. -/
  name : String
  /-- The number of sections that the source starts before it. -/
  ordinal : Nat := 0
  /-- The names of the sections that it requires, as they are written. -/
  required : List String := []
  /-- Names with the operands that they stand for. -/
  aliases : List (String × String) := []
  /-- The constants and labels that are defined in it. -/
  symbols : List Symbol := []
  /-- Its instructions in order. -/
  lines : List Instruction := []
  /-- The position of its first instruction in the output. -/
  offset : Nat := 0
deriving Repr, DecidableEq

/-- A pair put in the place of the one with its key, or at the end. -/
def bindKey (key value : String) : List (String × String) → List (String × String)
  | [] => [(key, value)]
  | pair :: rest =>
    if pair.1 = key then (key, value) :: rest else pair :: bindKey key value rest

namespace Section

/-- The name of the section that a source starts in. -/
def defaultName : String := "(default)"

/-- The number of instructions. -/
def size (s : Section) : Nat := s.lines.length

/-- The section holds no instruction, no alias and no symbol. -/
def isEmpty (s : Section) : Bool := s.lines.isEmpty && s.aliases.isEmpty && s.symbols.isEmpty

/-- The operand that a name stands for. -/
def alias? (s : Section) (name : String) : Option String :=
  (s.aliases.find? fun pair => pair.1 = name).map Prod.snd

/-- The symbol of a name. -/
def symbol? (s : Section) (name : String) : Option Symbol :=
  s.symbols.find? fun symbol => symbol.name = name

/-- The section defines a symbol of the name. -/
def defines (s : Section) (name : String) : Bool := (s.symbol? name).isSome

/-- The section with one more instruction at its end. -/
def addLine (s : Section) (instruction : Instruction) : Section :=
  { s with lines := s.lines ++ [instruction] }

/-- The section with one more symbol. -/
def addSymbol (s : Section) (symbol : Symbol) : Section :=
  { s with symbols := s.symbols ++ [symbol] }

/-- The section with a name bound to an operand; a name that is bound again keeps its place. -/
def bindAlias (s : Section) (name target : String) : Section :=
  { s with aliases := bindKey name target s.aliases }

/-- The text that shows a section. -/
def shown (s : Section) : String :=
  s!"Section({quoted s.name}, size={s.size}, offset={s.offset})"

end Section

/-- A program: its sections, and the names of all its symbols and aliases in the order in which they
were first defined. -/
structure Program where
  /-- The sections in the order of the source. -/
  sections : List Section := []
  /-- The names of the symbols. -/
  symbolNames : List String := []
  /-- The names of the aliases. -/
  aliasNames : List String := []
deriving Repr, DecidableEq

/-- The number of instructions of all sections. -/
def Program.size (p : Program) : Nat := p.sections.foldr (fun s n => s.size + n) 0

end ChipAsm
