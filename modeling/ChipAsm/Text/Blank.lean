/-!
# Blanks

White space is a fixed set of 29 code points: the ASCII controls from tab to carriage return, the
four information separators, the space, the next-line control and every space of the general
punctuation block, the line and paragraph separators included.  A zero-width space and a byte
order mark are not blanks.

`strip` removes the blanks at both ends of a text and nothing in between.
-/

namespace ChipAsm.Text

/-- White space. -/
def isBlank (c : Char) : Bool :=
  let n := c.toNat
  (9 ≤ n && n ≤ 13) || (28 ≤ n && n ≤ 32) || n == 0x85 || n == 0xA0 || n == 0x1680
    || (0x2000 ≤ n && n ≤ 0x200A) || n == 0x2028 || n == 0x2029 || n == 0x202F
    || n == 0x205F || n == 0x3000

/-- A blank that may stand between two operands of one line: any but the two line ends. -/
def isGap (c : Char) : Bool := isBlank c && c != '\r' && c != '\n'

/-- The text without its leading blanks. -/
def dropBlanks (cs : List Char) : List Char := cs.dropWhile isBlank

/-- The text without its trailing blanks. -/
def dropBlanksEnd (cs : List Char) : List Char := (dropBlanks cs.reverse).reverse

/-- The text without the blanks at either end. -/
def stripChars (cs : List Char) : List Char := dropBlanksEnd (dropBlanks cs)

/-- The text without the blanks at either end. -/
def strip (s : String) : String := String.ofList (stripChars s.toList)

/-- The text without one line feed at its very end. -/
def chomp : List Char → List Char
  | [] => []
  | ['\n'] => []
  | c :: cs => c :: chomp cs

theorem isBlank_of_isGap {c : Char} (h : isGap c = true) : isBlank c = true := by
  simp only [isGap, Bool.and_eq_true] at h
  exact h.1.1

end ChipAsm.Text
