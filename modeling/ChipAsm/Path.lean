import ChipAsm.Text.Newline
import ChipAsm.Text.Quoted

/-!
# Paths

A path has leading slashes and parts.  Reading a path leaves out empty parts and single dots and
keeps double dots.  Exactly two leading slashes stay two, any other number of them becomes one.

The suffix of a name starts at its last dot, if that is neither the first nor the last character.
-/

namespace ChipAsm

open ChipAsm.Text

/-- A path. -/
structure Path where
  /-- The number of leading slashes. -/
  slashes : Nat := 0
  /-- The parts between the slashes. -/
  parts : List String := []
deriving Repr, DecidableEq

/-- Why a path cannot have another name in the place of its own. -/
inductive NameFault where
  /-- The path has no name. -/
  | nameless (path : Path)
  /-- The text cannot be the name of a path. -/
  | unusable (name : String)
deriving Repr, DecidableEq

namespace Path

/-- The parts of a text between slashes that mean something: neither empty nor a single dot. -/
def properParts (cs : List Char) : List String :=
  ((splitAtSep '/' cs).filter fun part => part != [] && part != ['.']).map String.ofList

/-- The number of leading slashes that a path keeps. -/
def keptSlashes (count : Nat) : Nat := if count = 0 then 0 else if count = 2 then 2 else 1

/-- Reads a path. -/
def ofText (s : String) : Path where
  slashes := keptSlashes (s.toList.takeWhile (· == '/')).length
  parts := properParts s.toList

/-- The text of a path; one without anything is a single dot. -/
def text (p : Path) : String :=
  if p.slashes = 0 ∧ p.parts = [] then "."
  else String.ofList (List.replicate p.slashes '/') ++ "/".intercalate p.parts

/-- The last part, empty if there is none. -/
def name (p : Path) : String := p.parts.getLast?.getD ""

/-- The suffix of a name. -/
def suffixOf (name : List Char) : List Char :=
  let back := name.reverse
  match back.takeWhile (· != '.'), back.dropWhile (· != '.') with
  | c :: extension, _ :: _ :: _ => '.' :: (c :: extension).reverse
  | _, _ => []

/-- A text can be the name of a path: it has exactly one proper part, and no slash at either
end. -/
def isName (cs : List Char) : Bool :=
  cs.head? != some '/' && cs.getLast? != some '/' && (properParts cs).length == 1

/-- The path with another name in the place of its own. -/
def withName (p : Path) (name : String) : Except NameFault Path :=
  if p.parts = [] then .error (.nameless p)
  else if isName name.toList then .ok { p with parts := p.parts.dropLast ++ [name] }
  else .error (.unusable name)

/-- The path with only the proper parts of its parts. -/
def clean (p : Path) : Path :=
  { p with parts := p.parts.flatMap fun part => properParts part.toList }

end Path

/-- The message of a fault. -/
def NameFault.message : NameFault → String
  | .nameless path => "PosixPath(" ++ quoted path.text ++ ") has an empty name"
  | .unusable name => "Invalid name " ++ quoted name

end ChipAsm
