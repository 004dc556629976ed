import RamShell.Console.Color
/-!
# RamShell.Console.Event

What happens on a console, and what a plain screen shows of it. A console is described by the
list of events on it; a `Screen` is one reading of that list, the escape codes of a terminal are
another.
-/

namespace RamShell.Console

/-- Something that happens on a console. -/
inductive Event
  /-- Text is written. -/
  | write (text : String)
  /-- The colors of the text that follows are set. -/
  | paint (foreground background : Color)
  /-- The screen is cleared. -/
  | clear
  deriving DecidableEq, Repr

/-- What a plain screen shows: text, current colors, and how often it was cleared. -/
structure Screen where
  /-- The text since the screen was last cleared or taken. -/
  text : String
  /-- The current foreground. -/
  foreground : Color
  /-- The current background. -/
  background : Color
  /-- The number of clears. -/
  clears : Nat
  deriving DecidableEq, Repr

namespace Screen

/-- A new screen. -/
def blank : Screen := ⟨"", Color.foreground, Color.background, 0⟩

/-- The screen after one more event. -/
def after (s : Screen) : Event → Screen
  | .write text => { s with text := s.text ++ text }
  | .paint fg bg => { s with foreground := fg, background := bg }
  | .clear => { s with text := "", clears := s.clears + 1 }

/-- The screen after more events. -/
def afterAll (s : Screen) (events : List Event) : Screen := events.foldl after s

/-- The text, and the screen without it. -/
def take (s : Screen) : String × Screen := (s.text, { s with text := "" })

@[simp] theorem afterAll_nil (s : Screen) : s.afterAll [] = s := rfl

@[simp] theorem afterAll_append (s : Screen) (es fs : List Event) :
    s.afterAll (es ++ fs) = (s.afterAll es).afterAll fs := by
  simp [afterAll]

end Screen

end RamShell.Console
