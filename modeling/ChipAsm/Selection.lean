import ChipAsm.Section
import ChipAsm.Text.Case

/-!
# Choosing sections

A run may be limited to some sections, given by name.  It then takes these and all that they
require, directly or through others.  Names are compared in lower case, so a name may stand for
several sections, and a required name that no section has is disregarded.

`wanted` finds the names by repeating one step: the given names, and those that the sections named
so far require.  Every step but the last names a section that was not named before, so there are
no more steps than sections.
-/

namespace ChipAsm

open ChipAsm.Text

/-- The name that a section is known by. -/
def Section.key (s : Section) : String := lower s.name

/-- The names that the sections with a name in `names` require. -/
def requiredBy (sections : List Section) (names : List String) : List String :=
  (sections.filter fun s => names.contains s.key).flatMap fun s => s.required.map lower

/-- The given names, and those that `steps` rounds of requirements add. -/
def wantedIn (sections : List Section) (given : List String) : Nat → List String
  | 0 => given
  | steps + 1 => given ++ requiredBy sections (wantedIn sections given steps)

/-- The names of the sections that a run takes. -/
def wanted (sections : List Section) (given : List String) : List String :=
  wantedIn sections (given.map lower) sections.length

/-- The section has one of the names. -/
def Section.among (names : List String) (s : Section) : Bool := names.contains s.key

/-- The test for the sections that a run takes.  Without any name given it takes all. -/
def isChosen (given names : List String) (s : Section) : Bool := given.isEmpty || s.among names

/-- The sections that a run takes, in the order of the program. -/
def choose (sections : List Section) (given : List String) : List Section :=
  let names := wanted sections given
  sections.filter (isChosen given names)

/-- The places of the sections that a run takes. -/
def chosenPlaces (sections : List Section) (given : List String) : List Nat :=
  let names := wanted sections given
  (List.range sections.length).filter fun i => (sections[i]?).any (isChosen given names)

end ChipAsm
