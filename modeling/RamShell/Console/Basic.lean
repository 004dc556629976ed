import RamShell.Console.Event
/-!
# RamShell.Console.Basic

The console that commands write to: the events on it so far, and a rule for which writes it
takes.

Design points:

* Only text can be refused. Setting colors and clearing the screen always work, and a refused
  text leaves no trace among the events.
* The rule sees the number of the attempt and the text, so it can be any behaviour at all: a
  console that is closed, one that closes and opens again, one that refuses single texts.
* A formatter may hand its text over in pieces: a padded column as the name and its blanks, the wording
  of an error as its parts. Here either is offered as one text.
-/

namespace RamShell

/-- A console. -/
structure Console where
  /-- Whether the console takes the given text as its `n`-th attempted write. -/
  accepts : Nat → String → Bool
  /-- The number of writes attempted so far. -/
  attempts : Nat
  /-- What happened so far, newest first. -/
  log : List Console.Event

namespace Console

/-- A new console that takes every text. -/
def fresh : Console := ⟨fun _ _ => true, 0, []⟩

/-- What happened so far, in order. -/
def events (c : Console) : List Event := c.log.reverse

/-- Whether a text written now would be taken. -/
def takes (c : Console) (text : String) : Bool := c.accepts c.attempts text

/-- Offers a text. -/
def write (c : Console) (text : String) : Console :=
  { c with
    attempts := c.attempts + 1
    log := if c.takes text then .write text :: c.log else c.log }

/-- Sets the colors of the text that follows. -/
def paint (c : Console) (fg bg : Color) : Console := { c with log := .paint fg bg :: c.log }

/-- Clears the screen. -/
def clear (c : Console) : Console := { c with log := .clear :: c.log }

/-- What a plain screen shows of this console. -/
def screen (c : Console) : Screen := Screen.blank.afterAll c.events

theorem screen_paint (c : Console) (fg bg : Color) :
    (c.paint fg bg).screen = { c.screen with foreground := fg, background := bg } := by
  simp [screen, events, paint, Screen.afterAll, Screen.after]

theorem screen_clear (c : Console) :
    c.clear.screen = { c.screen with text := "", clears := c.screen.clears + 1 } := by
  simp [screen, events, clear, Screen.afterAll, Screen.after]

theorem screen_write (c : Console) (text : String) :
    (c.write text).screen =
      if c.takes text then { c.screen with text := c.screen.text ++ text } else c.screen := by
  unfold write
  split
  · simp [screen, events, Screen.afterAll, Screen.after]
  · rfl

end Console

end RamShell
