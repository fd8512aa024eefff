import ChipAsm.Token.Call
import ChipAsm.Text.Blank

/-!
# Source lines

A line has a head, operands and a comment.  The head is a directive word, or an optional label
followed by an optional mnemonic.  Operands are separated by blanks other than line ends.  A comment
starts at a number sign or a semicolon.  A single backslash at the end of a line without a comment
is accepted and has no meaning.

The head is recognised greedily, in this order: a directive word, a label with the mnemonic behind
it, a mnemonic alone.  Where the rest of the line does not fit, the next possibility is tried.  The
last one is a list of operands without a mnemonic, behind blanks at the start of the line or behind
a label.

The words of the directives are recognised without regard to case.  Labels and mnemonics are ASCII
and keep their case.
-/

namespace ChipAsm

open ChipAsm.Text ChipAsm.Token

/-- What a line starts with. -/
inductive Head where
  /-- A directive word, in lower case. -/
  | directive (word : String)
  /-- An optional label and an optional mnemonic. -/
  | code (label opcode : Option String)
deriving Repr, DecidableEq

/-- The parts of a line. -/
structure Line where
  /-- What the line starts with. -/
  head : Head
  /-- The operands in order. -/
  operands : List String
  /-- The comment, if it is not empty. -/
  comment : Option String
deriving Repr, DecidableEq

namespace Line

/-! ## Lexical classes -/

/-- An ASCII letter or digit. -/
def isAlnum (c : Char) : Bool := c.isAlpha || c.isDigit

/-- A character that a label may start with. -/
def isLabelStart (c : Char) : Bool := c.isAlpha || c == '_'

/-- A character of a label. -/
def isLabelChar (c : Char) : Bool := isAlnum c || c == '_'

/-- A character of an operand that is no call. -/
def isAtomChar (c : Char) : Bool := isAlnum c || c == '_' || c == '-' || c == '.' || c == ':'

/-! ## Operands -/

/-- Splits off the longest run of operand characters, if it is not empty. -/
def splitRun? (cs : List Char) : Option (List Char × List Char) :=
  match cs.takeWhile isAtomChar with
  | [] => none
  | c :: run => some (c :: run, cs.dropWhile isAtomChar)

/-- Splits off an operand that is no call; it may start with a dollar sign. -/
def splitAtom? : List Char → Option (List Char × List Char)
  | '$' :: cs => (splitRun? cs).map fun (run, rest) => ('$' :: run, rest)
  | cs => splitRun? cs

/-- Splits off an operand: a call if there is one, else the longest atom. -/
def splitOperand? (cs : List Char) : Option (List Char × List Char) :=
  match Call.split? cs with
  | some (call, rest) => some (call.chars, rest)
  | none => splitAtom? cs

theorem splitRun?_length {cs run rest : List Char} (h : splitRun? cs = some (run, rest)) :
    rest.length < cs.length := by
  unfold splitRun? at h
  split at h
  · cases h
  · rename_i c run' hrun
    simp only [Option.some.injEq, Prod.mk.injEq] at h
    have hsum := congrArg List.length (List.takeWhile_append_dropWhile (p := isAtomChar) (l := cs))
    rw [List.length_append, hrun, List.length_cons] at hsum
    rw [← h.2]
    omega

theorem splitAtom?_length {cs atom rest : List Char} (h : splitAtom? cs = some (atom, rest)) :
    rest.length < cs.length := by
  unfold splitAtom? at h
  split at h
  · obtain ⟨⟨run, r⟩, hrun, he⟩ := Option.map_eq_some_iff.1 h
    simp only [Prod.mk.injEq] at he
    have := splitRun?_length hrun
    rw [← he.2, List.length_cons]
    omega
  · exact splitRun?_length h

theorem splitOperand?_length {cs operand rest : List Char}
    (h : splitOperand? cs = some (operand, rest)) : rest.length < cs.length := by
  unfold splitOperand? at h
  split at h
  · rename_i call r hcall
    simp only [Option.some.injEq, Prod.mk.injEq] at h
    rw [← Call.split?_append hcall, ← h.2]
    simp [Call.chars]
    omega
  · exact splitAtom?_length h

/-- The operands that a text starts with, each behind at least one gap, and what is left. -/
def operandsOf (cs : List Char) : List (List Char) × List Char :=
  match cs with
  | [] => ([], [])
  | c :: more =>
    if isGap c then
      match _h : splitOperand? (more.dropWhile isGap) with
      | none => ([], cs)
      | some (operand, rest) =>
        let (operands, left) := operandsOf rest
        (operand :: operands, left)
    else ([], cs)
termination_by cs.length
decreasing_by
  have h₁ := splitOperand?_length ‹_›
  have h₂ := (List.dropWhile_suffix isGap (l := more)).length_le
  simp only [List.length_cons]
  omega

/-! ## The end of a line -/

/-- Nothing but blanks, at most one backslash, and at most a line feed behind it. -/
def isEnd (cs : List Char) : Bool :=
  match dropBlanks cs with
  | [] => true
  | ['\\'] => true
  | ['\\', '\n'] => true
  | _ => false

/-- The character starts a comment. -/
def isCommentMark (c : Char) : Bool := c == '#' || c == ';'

/-- Reads a comment behind its mark: it starts at the first character that is not blank and ends
with its line. -/
def commentOf? (cs : List Char) : Option (List Char) :=
  let text := dropBlanks cs
  if isEnd (text.dropWhile (· != '\n')) then some (text.takeWhile (· != '\n')) else none

/-- Reads what follows the operands; the comment is empty if there is none. -/
def ending? (cs : List Char) : Option (List Char) :=
  match dropBlanks cs with
  | [] => some []
  | c :: rest =>
    if isCommentMark c then commentOf? rest
    else if isEnd cs then some []
    else none

/-- A text, or nothing if it is empty. -/
def nonempty? : List Char → Option String
  | [] => none
  | cs => some (String.ofList cs)

/-- The line with a given head whose operands and comment make up the text. -/
def withOperands? (head : Head) (cs : List Char) : Option Line :=
  let (operands, rest) := operandsOf cs
  (ending? rest).map fun comment => ⟨head, operands.map String.ofList, nonempty? comment⟩

/-! ## Heads -/

/-- The words of the directives. -/
def directiveWords : List (List Char) :=
  [['a', 'l', 'i', 'a', 's'], ['s', 'e', 'c', 't', 'i', 'o', 'n'], ['d', 'e', 'f', 'i', 'n', 'e']]

/-- Reads a directive line. -/
def directive? (cs : List Char) : Option Line :=
  match directiveWords.findSome? (splitWord? · cs) with
  | none => none
  | some (word, rest) => withOperands? (.directive (String.ofList (lowerChars word))) rest

/-- Splits off a label and the colon behind it. -/
def splitLabel? : List Char → Option (String × List Char)
  | [] => none
  | c :: cs =>
    if isLabelStart c then
      match cs.dropWhile isLabelChar with
      | ':' :: rest => some (String.ofList (c :: cs.takeWhile isLabelChar), rest)
      | _ => none
    else none

/-- Splits off a mnemonic, if a letter stands there. -/
def splitOpcode : List Char → Option String × List Char
  | [] => (none, [])
  | c :: cs =>
    if c.isAlpha then (some (String.ofList (c :: cs.takeWhile isAlnum)), cs.dropWhile isAlnum)
    else (none, c :: cs)

/-- Reads an optional mnemonic and what follows it, behind an optional label. -/
def code? (label : Option String) (cs : List Char) : Option Line :=
  let (opcode, rest) := splitOpcode cs
  withOperands? (.code label opcode) rest

/-- Reads operands without a mnemonic.  The last of the blanks in front of them is their gap. -/
def bare? (label : Option String) (cs : List Char) : Option Line :=
  match (cs.takeWhile isBlank).getLast? with
  | none => none
  | some blank => withOperands? (.code label none) (blank :: dropBlanks cs)

/-- Reads a line that starts with a label. -/
def labelled? (cs : List Char) : Option Line :=
  match splitLabel? cs with
  | none => none
  | some (label, rest) => (code? (some label) (dropBlanks rest)).or (bare? (some label) rest)

/-- Reads a line. -/
def ofChars? (cs : List Char) : Option Line :=
  let start := dropBlanks cs
  (((directive? start).or (labelled? start)).or (code? none start)).or (bare? none cs)

/-- Reads a line. -/
def read? (s : String) : Option Line := ofChars? s.toList

end Line

end ChipAsm
