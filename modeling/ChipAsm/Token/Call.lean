import ChipAsm.Number.Whole
import ChipAsm.Text.Case
import ChipAsm.Token.Crc32

/-!
# Inline calls

Two inline calls stand for numbers computed from a text: `HASH("text")` is the checksum of the
text, `STR("text")` packs its first six characters into one number.  A keyword may be spelled in
any case.  Characters outside ASCII count as question marks.
-/

namespace ChipAsm.Token

open ChipAsm.Text

/-- A call as it is written. -/
structure Call where
  /-- The keyword as it is spelled. -/
  keyword : List Char
  /-- The text between the quotes. -/
  argument : List Char
deriving Repr, DecidableEq

/-! ## Values -/

/-- The ASCII code of a character, that of a question mark for all others. -/
def asciiCode (c : Char) : Nat := if c.toNat < 128 then c.toNat else 63

/-- The checksum of a text. -/
def hashText (cs : List Char) : Nat :=
  (crc32 (cs.map fun c => BitVec.ofNat 8 (asciiCode c))).toNat

/-- The number of characters that are packed into one number. -/
def packLimit : Nat := 6

/-- The bits of a word of 64 bits, all of them set. -/
def wordMask : Nat := 0xFFFFFFFFFFFFFFFF

/-- A number moved up by one byte, with the code of a character in the byte that becomes free. -/
def shiftIn (n : Nat) (c : Char) : Nat := n <<< 8 ||| asciiCode c

/-- The first characters of a text packed into one word, the first most significant. -/
def packText (cs : List Char) : Nat :=
  (cs.take packLimit).foldl (fun n c => shiftIn n c &&& wordMask) 0

namespace Call

/-- The keyword of the checksum. -/
def hashWord : List Char := ['h', 'a', 's', 'h']

/-- The keyword of the packed text. -/
def packWord : List Char := ['s', 't', 'r']

/-- Splits off a keyword, spelled in any case. -/
def splitKeyword? (cs : List Char) : Option (List Char × List Char) :=
  match splitWord? hashWord cs with
  | some found => some found
  | none => splitWord? packWord cs

/-- Splits off a quoted argument in parentheses.  The argument runs to the next quote. -/
def splitArgument? : List Char → Option (List Char × List Char)
  | '(' :: '"' :: cs =>
    match cs.dropWhile (· != '"') with
    | '"' :: ')' :: rest => some (cs.takeWhile (· != '"'), rest)
    | _ => none
  | _ => none

theorem splitArgument?_append {cs argument rest : List Char}
    (h : splitArgument? cs = some (argument, rest)) :
    '(' :: '"' :: argument ++ ['"', ')'] ++ rest = cs := by
  unfold splitArgument? at h
  split at h
  · rename_i cs'
    split at h
    · rename_i rest' hdrop
      simp only [Option.some.injEq, Prod.mk.injEq] at h
      obtain ⟨rfl, rfl⟩ := h
      have := List.takeWhile_append_dropWhile (p := (· != '"')) (l := cs')
      rw [hdrop] at this
      simpa using this
    · cases h
  · cases h

/-- Splits off a call. -/
def split? (cs : List Char) : Option (Call × List Char) :=
  match splitKeyword? cs with
  | none => none
  | some (keyword, cs) =>
    (splitArgument? cs).map fun (argument, rest) => (⟨keyword, argument⟩, rest)

/-- The text of a call. -/
def chars (call : Call) : List Char :=
  call.keyword ++ '(' :: '"' :: call.argument ++ ['"', ')']

/-- What `split?` splits off and what is left make up the text. -/
theorem split?_append {cs rest : List Char} {call : Call} (h : split? cs = some (call, rest)) :
    call.chars ++ rest = cs := by
  unfold split? at h
  split at h
  · cases h
  · rename_i keyword cs' hkey
    obtain ⟨⟨argument, r⟩, harg, he⟩ := Option.map_eq_some_iff.1 h
    simp only [Prod.mk.injEq] at he
    obtain ⟨rfl, rfl⟩ := he
    have hword : keyword ++ cs' = cs := by
      unfold splitKeyword? at hkey
      split at hkey
      · rename_i found hfound
        rw [Option.some.injEq] at hkey
        rw [hkey] at hfound
        exact splitWord?_append hfound
      · exact splitWord?_append hkey
    have hbody : '(' :: '"' :: argument ++ ['"', ')'] ++ r = cs' := splitArgument?_append harg
    rw [← hword, ← hbody]
    simp [chars]

/-- Reads a call that takes up the whole token, a line feed at the end disregarded. -/
def read? (token : String) : Option Call :=
  match split? token.toList with
  | some (call, []) => some call
  | some (call, ['\n']) => some call
  | _ => none

/-- The number that a call stands for.  The checksum is taken when the keyword is `hash` in lower
case, the packed text otherwise. -/
def value (call : Call) : Nat :=
  if lowerChars call.keyword = hashWord then hashText call.argument else packText call.argument

end Call

/-- The token is a call. -/
def isCall (token : String) : Bool := (Call.read? token).isSome

/-- The number that a token stands for if it is a call. -/
def callValue? (token : String) : Option Nat := (Call.read? token).map Call.value

/-- A call replaced by its number; any other token as it is. -/
def expand (token : String) : String :=
  match callValue? token with
  | some n => String.ofList (natDigits n)
  | none => token

/-- The text between the first and the last quote of a token, empty if there is only one quote. -/
def betweenQuotes? (token : String) : Option String :=
  match token.toList.dropWhile (· != '"') with
  | [] => none
  | _ :: cs => some (String.ofList ((cs.reverse.dropWhile (· != '"')).drop 1).reverse)

end ChipAsm.Token
