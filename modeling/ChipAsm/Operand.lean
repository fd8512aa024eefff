import ChipAsm.Constraint
import ChipAsm.Symbol
import ChipAsm.Token.Shape

/-!
# Operands

A source does not say what its operands are, so the kind of an operand is told from its text.  A
numeral, a call, a device pin and a register are what they look like.  A hexadecimal numeral becomes
a decimal one.  Any other word is looked up: a symbol becomes what it stands for, unless nothing is
to be replaced here, and a word that is no symbol stays unknown.
-/

namespace ChipAsm

open ChipAsm.Number ChipAsm.Token

/-- An operand of a known kind. -/
structure Operand where
  /-- What it is. -/
  kind : Kind
  /-- Its text after replacement. -/
  text : String
  /-- The symbol that it names. -/
  symbol : Option Symbol := none
deriving Repr, DecidableEq

/-- A symbol with the offset of the section that it belongs to. -/
structure Found where
  /-- The symbol. -/
  symbol : Symbol
  /-- The offset of its section. -/
  offset : Int
deriving Repr, DecidableEq

namespace Operand

/-- The operand may stand at a place.  An unknown word may stand anywhere: it has been reported when
it was looked up. -/
def satisfies (operand : Operand) (c : Constraint) : Bool :=
  match operand.kind with
  | .unknown => true
  | kind => c.allowsUnknown || c.allows kind

/-- The operand for a word and the symbol that was found for it. -/
def ofWord (token : String) (found : Option Found) (substitute : Bool) :
    Except NumeralFault Operand :=
  match found with
  | none => .ok ⟨.unknown, token, none⟩
  | some found =>
    if substitute then
      (found.symbol.resolve found.offset).map fun text => ⟨.constant, text, some found.symbol⟩
    else .ok ⟨.unknown, token, some found.symbol⟩

/-- The operand for a token, where words are looked up by `find`. -/
def classify (token : String) (find : String → Option Found) (substitute : Bool) :
    Except NumeralFault Operand :=
  match Shape.of token with
  | .number => .ok ⟨.constant, token, none⟩
  | .call => .ok ⟨.constant, token, none⟩
  | .device => .ok ⟨.device, token, none⟩
  | .register => .ok ⟨.register, token, none⟩
  | .hex n => (writeInt n).map fun text => ⟨.constant, text, none⟩
  | .word => ofWord token (find token) substitute

end Operand

end ChipAsm
