import RamShell.Text.Split
/-!
# RamShell.Text.Blank

White space. The class is the Unicode property `White_Space`, given by its code point ranges; it
decides where a command line is cut into words, what counts as a blank line, and what is trimmed
from both ends of a line.
-/

namespace RamShell.Text

/-- The code point ranges of `White_Space`, both ends included. -/
def blankRanges : List (Nat × Nat) :=
  [(0x09, 0x0D), (0x20, 0x20), (0x85, 0x85), (0xA0, 0xA0), (0x1680, 0x1680), (0x2000, 0x200A),
    (0x2028, 0x2029), (0x202F, 0x202F), (0x205F, 0x205F), (0x3000, 0x3000)]

/-- Whether a character is white space. -/
def isBlank (c : Char) : Bool :=
  blankRanges.any fun (first, last) => decide (first ≤ c.toNat ∧ c.toNat ≤ last)

/-- A text without white space at its two ends. -/
def trim (s : String) : String :=
  String.ofList (dropTrailing isBlank (s.toList.dropWhile isBlank))

/-- Whether a text holds nothing but white space. -/
def isBlankText (s : String) : Bool :=
  s.toList.all isBlank

/-- The words of a text: its maximal runs without white space. -/
def wordsOf (s : String) : List String :=
  (words isBlank s.toList).map String.ofList

end RamShell.Text
