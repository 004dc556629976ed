import RamShell.Console.Event
import RamShell.Text.Numeral
/-!
# RamShell.Console.Ansi

Console events as the escape codes of a terminal. Text goes out as it is; colors are a *select
graphic rendition* code for both grounds at once; clearing also moves the cursor home.
-/

namespace RamShell.Console.Ansi

/-- The escape character and the bracket that open a code. -/
def opener : String := "\x1b["

/-- The place of a color within its half of the terminal's own palette, which counts red, green,
blue from the lowest bit where ours counts blue, green, red. -/
def offset (c : Color) : Nat :=
  match c.index % 8 with
  | 1 => 4
  | 3 => 6
  | 4 => 1
  | 6 => 3
  | i => i

/-- The code of a foreground color. -/
def foregroundCode (c : Color) : Nat := (if c.isBright then 90 else 30) + offset c

/-- The code of a background color. -/
def backgroundCode (c : Color) : Nat := (if c.isBright then 100 else 40) + offset c

/-- The codes of one event. -/
def render : Event → String
  | .write text => text
  | .paint fg bg =>
    opener ++ Text.decimal (foregroundCode fg) ++ ";" ++ Text.decimal (backgroundCode bg) ++ "m"
  | .clear => opener ++ "2J" ++ opener ++ "H"

/-- The codes of events in order. -/
def renderAll (events : List Event) : String := String.join (events.map render)

/-- Gives the terminal its own colors back. -/
def restore : String := opener ++ "0m"

end RamShell.Console.Ansi
