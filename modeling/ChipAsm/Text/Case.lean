import ChipAsm.Text.CaseTable

/-!
# Lower case

Names are compared in lower case.  Lower-casing is the full one: a letter goes to its lower-case
partner, the dotted capital I becomes an `i` with a combining dot, and a capital sigma becomes the
final sigma exactly at the end of a word.  A sigma ends a word when the nearest letter before it is
cased and the nearest after it is not, where marks and modifiers are skipped on both sides.
-/

namespace ChipAsm.Text

/-- Some run of the table holds the code point. -/
def inRuns (runs : List (Nat × Nat)) (n : Nat) : Bool :=
  runs.any fun run => run.1 ≤ n && n ≤ run.2

/-- Skipped when the surroundings of a sigma are looked at. -/
def isCaseIgnorable (c : Char) : Bool := inRuns ignorableRuns c.toNat

/-- A letter with a case. -/
def isCased (c : Char) : Bool := inRuns casedRuns c.toNat

/-- The nearest character of the list that is not skipped is a letter with a case. -/
def meetsCased (cs : List Char) : Bool :=
  match cs.dropWhile isCaseIgnorable with
  | [] => false
  | c :: _ => isCased c

/-- The lower-case partner of a character that has a single one, else the character. -/
def lowerChar (c : Char) : Char :=
  let n := c.toNat
  if n < 128 then c.toLower
  else
    match capitalRuns.find? fun run =>
        run.1 ≤ n && n ≤ run.2.1 && (n - run.1) % run.2.2.1 == 0 with
    | some run => Char.ofNat ((n : Int) + run.2.2.2).toNat
    | none => c

/-- Lower case of one character between what precedes it, nearest first, and what follows it. -/
def lowerAt (before : List Char) (c : Char) (after : List Char) : List Char :=
  if c = 'Σ' then
    [if meetsCased before && !meetsCased after then 'ς' else 'σ']
  else if c = 'İ' then ['i', '\u0307']
  else [lowerChar c]

/-- Lower case of a text that continues `before`, which is held nearest character first. -/
def lowerAfter (before : List Char) : List Char → List Char
  | [] => []
  | c :: cs => lowerAt before c cs ++ lowerAfter (c :: before) cs

/-- Lower case of a text. -/
def lowerChars (cs : List Char) : List Char := lowerAfter [] cs

/-- Lower case of a text. -/
def lower (s : String) : String := String.ofList (lowerChars s.toList)

/-! ## Letters that stand for each other

Keywords are recognised without regard to case.  Besides the two cases of each letter, the dotted
capital and the dotless small I stand for `i`, and the long S stands for `s`. -/

/-- The character stands for the small ASCII letter when case is disregarded. -/
def foldsTo (letter c : Char) : Bool :=
  c == letter || c == letter.toUpper
    || (letter == 'i' && (c == 'İ' || c == 'ı')) || (letter == 's' && c == 'ſ')

/-- Splits off the beginning of a text that spells the word when case is disregarded. -/
def splitWord? : List Char → List Char → Option (List Char × List Char)
  | [], cs => some ([], cs)
  | _ :: _, [] => none
  | w :: ws, c :: cs =>
    if foldsTo w c then (splitWord? ws cs).map fun (found, rest) => (c :: found, rest) else none

/-- What `splitWord?` splits off and what is left make up the text. -/
theorem splitWord?_append {word cs found rest : List Char}
    (h : splitWord? word cs = some (found, rest)) : found ++ rest = cs := by
  induction word generalizing cs found with
  | nil =>
    simp only [splitWord?, Option.some.injEq, Prod.mk.injEq] at h
    rw [← h.1, ← h.2, List.nil_append]
  | cons w ws ih =>
    cases cs with
    | nil => cases h
    | cons c cs =>
      simp only [splitWord?] at h
      split at h
      · obtain ⟨⟨f, r⟩, hf, he⟩ := Option.map_eq_some_iff.1 h
        simp only [Prod.mk.injEq] at he
        obtain ⟨rfl, rfl⟩ := he
        simp [ih hf]
      · cases h

end ChipAsm.Text
