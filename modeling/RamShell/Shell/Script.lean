import RamShell.Console.Basic
import RamShell.Shell.Error
import RamShell.Shell.Session
/-!
# RamShell.Shell.Script

What commands do, step by step. A command is a function from a session to a *script*: the texts it
writes, the colors it sets, the sessions it goes on with, and where it gives up, all in the order in
which they happen. Playing a script is the one place that meets the console.

Design points:

* A text that the console refuses ends the play, and whatever comes after it does not happen: not the
  texts that are left, and no change of the session either. So it is up to a command to change the
  session before it writes.
* A command does not see what the console takes. It can only be cut short.
-/

namespace RamShell.Shell

open Console (Color)

/-- One step of a command. -/
inductive Step
  /-- Write a text. -/
  | print (text : String)
  /-- Set the foreground over the default background. -/
  | ink (color : Color)
  /-- Set the default colors. -/
  | plain
  /-- Clear the screen. -/
  | clear
  /-- Go on with another session. -/
  | become (s : Session)
  /-- Give up. -/
  | fail (e : Error)
  deriving DecidableEq, Repr

/-- Steps in order. -/
abbrev Script := List Step

/-- A command: from a session and the words after the command's name to what is done. -/
abbrev Handler := Session → List String → Script

namespace Script

/-- Writes texts one after the other. -/
def say (texts : List String) : Script := texts.map .print

/-- Writes texts in a color, and sets the default colors after them. -/
def sayIn (color : Color) (texts : List String) : Script :=
  .ink color :: say texts ++ [.plain]

/-- Goes on with the volume that a change left, and gives up if the change failed. `shown` is the path
that the error names. -/
def change (s : Session) (shown : String) (result : Volume.Result Unit) (rest : Script) : Script :=
  .become { s with volume := result.2 } ::
    match result.1 with
    | .ok () => rest
    | .error e => [.fail (.volume shown e)]

/-- Everything that a script writes. -/
def text (script : Script) : String :=
  String.join (script.filterMap fun | .print t => some t | _ => none)

/-- Plays a script. Says what went wrong, if anything did, and what session and console are then. -/
def play : Script → Session → Console → Except Error Unit × Session × Console
  | [], s, c => (.ok (), s, c)
  | .print t :: rest, s, c =>
    if c.takes t then play rest s (c.write t) else (.error .refused, s, c.write t)
  | .ink color :: rest, s, c => play rest s (c.paint color Color.background)
  | .plain :: rest, s, c => play rest s (c.paint Color.foreground Color.background)
  | .clear :: rest, s, c => play rest s c.clear
  | .become t :: rest, _, c => play rest t c
  | .fail e :: _, s, c => (.error e, s, c)

end Script

end RamShell.Shell
