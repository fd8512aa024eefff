/-!
# Line ends

A text read from a file may end its lines by a line feed, by a carriage return, or by a carriage
return and a line feed; all three read as a line feed.  A source is divided at line feeds only.

Text that is shown ends its lines by a line feed alone.
-/

namespace ChipAsm.Text

/-- Every line end as a line feed. -/
def unifyNewlinesChars : List Char → List Char
  | [] => []
  | '\r' :: '\n' :: cs => '\n' :: unifyNewlinesChars cs
  | '\r' :: cs => '\n' :: unifyNewlinesChars cs
  | c :: cs => c :: unifyNewlinesChars cs

/-- Every line end as a line feed. -/
def unifyNewlines (s : String) : String := String.ofList (unifyNewlinesChars s.toList)

/-- Every pair of a carriage return and a line feed as a line feed; a carriage return elsewhere is
kept. -/
def joinReturnsChars : List Char → List Char
  | [] => []
  | '\r' :: '\n' :: cs => '\n' :: joinReturnsChars cs
  | c :: cs => c :: joinReturnsChars cs

/-- Every pair of a carriage return and a line feed as a line feed. -/
def joinReturns (s : String) : String := String.ofList (joinReturnsChars s.toList)

/-- The pieces of `c :: cs`, from those of `cs`. -/
def pushPiece (sep c : Char) : List (List Char) → List (List Char)
  | [] => [[c]]
  | piece :: pieces => if c = sep then [] :: piece :: pieces else (c :: piece) :: pieces

/-- The pieces of a text between occurrences of a separator; always at least one. -/
def splitAtSep (sep : Char) (cs : List Char) : List (List Char) :=
  cs.foldr (pushPiece sep) [[]]

/-- The lines of a source. -/
def linesOf (source : String) : List (List Char) := splitAtSep '\n' source.toList

/-- Lines put together with a line feed between any two. -/
def joinLines (lines : List String) : String := "\n".intercalate lines

theorem splitAtSep_ne_nil (sep : Char) (cs : List Char) : splitAtSep sep cs ≠ [] := by
  cases cs with
  | nil => simp [splitAtSep]
  | cons c cs =>
    simp only [splitAtSep, List.foldr_cons]
    cases cs.foldr (pushPiece sep) [[]] with
    | nil => simp [pushPiece]
    | cons piece pieces => simp only [pushPiece]; split <;> simp

end ChipAsm.Text
