import ChipAsm.Signature

/-!
# The instruction set

The signatures of the chip's instructions, by family.
-/

namespace ChipAsm

namespace InstructionSet

/-! ## Constraints -/

/-- A register that receives a result. -/
def out : Constraint := ⟨4⟩

/-- A register or a number. -/
def val : Constraint := ⟨5⟩

/-- A device pin. -/
def dev : Constraint := ⟨2⟩

/-- A register, a number or a word of the game such as a logic type. -/
def enum : Constraint := ⟨13⟩

/-- A register, or an address that is made relative. -/
def rel : Constraint := ⟨37⟩

/-- A name that is left as it is written. -/
def aliasName : Constraint := ⟨24⟩

/-- A device pin that is left as it is written. -/
def aliasPin : Constraint := ⟨18⟩

/-! ## Families -/

/-- Waiting, stopping and moving; the alias of a device is kept as it is written. -/
def utility : List (String × List Constraint) :=
  [("alias", [aliasName, aliasPin]), ("hcf", []), ("sleep", [val]), ("yield", []),
   ("move", [out, val])]

/-- The stack of the chip and of devices. -/
def stack : List (String × List Constraint) :=
  [("push", [val]), ("pop", [out]), ("peek", [out]), ("poke", [val, val]),
   ("get", [out, dev, val]), ("getd", [out, val, val]), ("put", [dev, val, val]),
   ("putd", [val, val, val]), ("clr", [dev]), ("clrd", [val])]

/-- Reading and writing single devices. -/
def deviceAccess : List (String × List Constraint) :=
  [("l", [out, dev, enum]), ("s", [dev, enum, val]), ("ls", [out, dev, val, enum]),
   ("ss", [dev, val, enum, val]), ("lr", [out, dev, enum, enum]), ("ld", [out, val, enum]),
   ("sd", [val, enum, val]), ("rmap", [out, dev, val])]

/-- Reading and writing all devices of a kind. -/
def batchAccess : List (String × List Constraint) :=
  [("lb", [out, val, enum, enum]), ("sb", [val, enum, val]), ("lbn", [out, val, val, enum, enum]),
   ("sbn", [val, val, enum, val]), ("lbs", [out, val, val, enum, enum]),
   ("sbs", [val, val, enum, val]), ("lbns", [out, val, val, val, enum, enum])]

/-- Arithmetic. -/
def arithmetic : List (String × List Constraint) :=
  [("add", [out, val, val]), ("sub", [out, val, val]), ("mul", [out, val, val]),
   ("div", [out, val, val]), ("mod", [out, val, val]), ("pow", [out, val, val]),
   ("max", [out, val, val]), ("min", [out, val, val]), ("abs", [out, val]), ("ceil", [out, val]),
   ("floor", [out, val]), ("round", [out, val]), ("trunc", [out, val]), ("sqrt", [out, val]),
   ("exp", [out, val]), ("log", [out, val]), ("rand", [out]), ("sin", [out, val]),
   ("cos", [out, val]), ("tan", [out, val]), ("asin", [out, val]), ("acos", [out, val]),
   ("atan", [out, val]), ("atan2", [out, val, val]), ("lerp", [out, val, val, val])]

/-- Logic on bits. -/
def bitwise : List (String × List Constraint) :=
  [("and", [out, val, val]), ("or", [out, val, val]), ("xor", [out, val, val]),
   ("nor", [out, val, val]), ("not", [out, val]), ("sll", [out, val, val]),
   ("srl", [out, val, val]), ("sla", [out, val, val]), ("sra", [out, val, val]),
   ("ext", [out, val, val, val]), ("ins", [out, val, val, val])]

/-- Comparisons and selection. -/
def comparison : List (String × List Constraint) :=
  [("select", [out, val, val, val]), ("seq", [out, val, val]), ("sne", [out, val, val]),
   ("sgt", [out, val, val]), ("sge", [out, val, val]), ("slt", [out, val, val]),
   ("sle", [out, val, val]), ("seqz", [out, val]), ("snez", [out, val]), ("sgtz", [out, val]),
   ("sgez", [out, val]), ("sltz", [out, val]), ("slez", [out, val]),
   ("sap", [out, val, val, val]), ("sna", [out, val, val, val]), ("sapz", [out, val, val]),
   ("snaz", [out, val, val]), ("snan", [out, val]), ("snanz", [out, val]), ("sdse", [out, dev]),
   ("sdns", [out, dev])]

/-- Jumps. -/
def jumps : List (String × List Constraint) :=
  [("j", [val]), ("jal", [val]), ("jr", [rel])]

/-- Branches to an address; those that end in `al` store the return address. -/
def absoluteBranches : List (String × List Constraint) :=
  [("beq", [val, val, val]), ("bne", [val, val, val]), ("bgt", [val, val, val]),
   ("bge", [val, val, val]), ("blt", [val, val, val]), ("ble", [val, val, val]),
   ("beqz", [val, val]), ("bnez", [val, val]), ("bgtz", [val, val]), ("bgez", [val, val]),
   ("bltz", [val, val]), ("blez", [val, val]), ("bap", [val, val, val, val]),
   ("bna", [val, val, val, val]), ("bapz", [val, val, val]), ("bnaz", [val, val, val]),
   ("bnan", [val, val]), ("bdse", [dev, val]), ("bdns", [dev, val]), ("beqal", [val, val, val]),
   ("bneal", [val, val, val]), ("bgtal", [val, val, val]), ("bgeal", [val, val, val]),
   ("bltal", [val, val, val]), ("bleal", [val, val, val]), ("beqzal", [val, val]),
   ("bnezal", [val, val]), ("bgtzal", [val, val]), ("bgezal", [val, val]), ("bltzal", [val, val]),
   ("blezal", [val, val]), ("bapal", [val, val, val, val]), ("bnaal", [val, val, val, val]),
   ("bapzal", [val, val, val]), ("bnazal", [val, val, val]), ("bdseal", [dev, val]),
   ("bdnsal", [dev, val])]

/-- Branches by a distance. -/
def relativeBranches : List (String × List Constraint) :=
  [("breq", [val, val, rel]), ("brne", [val, val, rel]), ("brgt", [val, val, rel]),
   ("brge", [val, val, rel]), ("brlt", [val, val, rel]), ("brle", [val, val, rel]),
   ("breqz", [val, rel]), ("brnez", [val, rel]), ("brgtz", [val, rel]), ("brgez", [val, rel]),
   ("brltz", [val, rel]), ("brlez", [val, rel]), ("brap", [val, val, val, rel]),
   ("brna", [val, val, val, rel]), ("brapz", [val, val, rel]), ("brnaz", [val, val, rel]),
   ("brnan", [val, rel]), ("brdse", [dev, rel]), ("brdns", [dev, rel])]

/-- All families in order. -/
def all : List (String × List Constraint) :=
  utility ++ stack ++ deviceAccess ++ batchAccess ++ arithmetic ++ bitwise
    ++ comparison ++ jumps ++ absoluteBranches ++ relativeBranches

end InstructionSet

/-- The table of the chip's instructions. -/
def Table.standard : Table := ⟨InstructionSet.all.map fun (m, cs) => ⟨m, cs⟩⟩

end ChipAsm
