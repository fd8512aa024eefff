import ChipAsm.Section

/-!
# Placing sections

Sections are placed one behind the other.  The offset of a section is the number of instructions in
the sections placed before it.  Sections that are not placed keep the offset they have.
-/

namespace ChipAsm

/-- The sections where the first `count` of those that are `chosen` are placed, the first of them
at `next`. -/
def placeFrom (chosen : Section → Bool) : Nat → Nat → List Section → List Section
  | _, _, [] => []
  | 0, _, sections => sections
  | count + 1, next, s :: sections =>
    if chosen s then
      { s with offset := next } :: placeFrom chosen count (next + s.size) sections
    else s :: placeFrom chosen (count + 1) next sections

/-- The program where the first `count` of the chosen sections are placed. -/
def Program.place (p : Program) (chosen : Section → Bool) (count : Nat) : Program :=
  { p with sections := placeFrom chosen count 0 p.sections }

end ChipAsm
