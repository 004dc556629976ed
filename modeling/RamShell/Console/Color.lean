/-!
# RamShell.Console.Color

The sixteen colors of a text screen, in palette order: eight dark ones and their bright forms.
-/

namespace RamShell.Console

/-- A color of the palette. -/
inductive Color
  /-- Palette index 0. -/
  | black
  /-- Palette index 1. -/
  | blue
  /-- Palette index 2. -/
  | green
  /-- Palette index 3. -/
  | cyan
  /-- Palette index 4. -/
  | red
  /-- Palette index 5. -/
  | magenta
  /-- Palette index 6. -/
  | brown
  /-- Palette index 7, the default foreground. -/
  | lightGrey
  /-- Palette index 8. -/
  | darkGrey
  /-- Palette index 9. -/
  | lightBlue
  /-- Palette index 10. -/
  | lightGreen
  /-- Palette index 11. -/
  | lightCyan
  /-- Palette index 12. -/
  | lightRed
  /-- Palette index 13. -/
  | lightMagenta
  /-- Palette index 14. -/
  | lightBrown
  /-- Palette index 15. -/
  | white
  deriving DecidableEq, Repr

namespace Color

/-- Every color in palette order. -/
def palette : List Color :=
  [black, blue, green, cyan, red, magenta, brown, lightGrey, darkGrey, lightBlue, lightGreen,
    lightCyan, lightRed, lightMagenta, lightBrown, white]

/-- The place of a color in the palette. -/
def index : Color → Nat
  | black => 0
  | blue => 1
  | green => 2
  | cyan => 3
  | red => 4
  | magenta => 5
  | brown => 6
  | lightGrey => 7
  | darkGrey => 8
  | lightBlue => 9
  | lightGreen => 10
  | lightCyan => 11
  | lightRed => 12
  | lightMagenta => 13
  | lightBrown => 14
  | white => 15

/-- The color at a place in the palette. -/
def ofIndex? (i : Nat) : Option Color := palette[i]?

/-- Whether a color is one of the bright half. -/
def isBright (c : Color) : Bool := decide (8 ≤ c.index)

/-- The color of text when nothing else is set. -/
def foreground : Color := lightGrey

/-- The color behind text when nothing else is set. -/
def background : Color := black

@[simp] theorem ofIndex?_index (c : Color) : ofIndex? c.index = some c := by
  cases c <;> rfl

end Color

end RamShell.Console
