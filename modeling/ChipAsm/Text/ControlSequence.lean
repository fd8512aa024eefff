/-!
# Control sequences

A terminal takes its orders from control sequences in the text that it shows.  A control sequence is
an escape character, an opening bracket, any number of parameter characters and one letter.
Parameter characters are digits, semicolons and question marks; digits and letters are those of
ASCII.

`dropSequences` removes the control sequences of a text in one pass from the left.  An escape
character that starts none is kept, and what comes together where a sequence was removed is not
looked at again.
-/

namespace ChipAsm.Text

/-- The escape character. -/
def escape : Char := Char.ofNat 27

/-- A character that may stand between the bracket and the letter. -/
def isParameter (c : Char) : Bool := c == ';' || c == '?' || c.isDigit

/-- How many characters behind an escape character belong to its control sequence; nothing if it
starts none. -/
def sequenceLength? : List Char → Option Nat
  | '[' :: cs =>
    match cs.dropWhile isParameter with
    | c :: _ => if c.isAlpha then some ((cs.takeWhile isParameter).length + 2) else none
    | [] => none
  | _ => none

/-- The text without its first `n` characters and without the control sequences behind those. -/
def dropSequencesFrom : Nat → List Char → List Char
  | _, [] => []
  | n + 1, _ :: cs => dropSequencesFrom n cs
  | 0, c :: cs =>
    if c = escape then
      match sequenceLength? cs with
      | some n => dropSequencesFrom n cs
      | none => c :: dropSequencesFrom 0 cs
    else c :: dropSequencesFrom 0 cs

/-- The text without its control sequences. -/
def dropSequences (s : String) : String := String.ofList (dropSequencesFrom 0 s.toList)

end ChipAsm.Text
