import RamShell.Shell.Script
import RamShell.Text.Numeral
/-!
# RamShell.Shell.Command.Login

The commands on the user of the session: `whoami`, `root`, `su`, `exit`, `hostname` and `history`.

Becoming root takes two lines. The command `root` writes its question, and once all of it is written
the session waits for the answer: whatever line comes next is taken as the password, and `password`
answers it. The line end after the answer is written first, so a root session starts between two
texts.
-/

namespace RamShell.Shell.Command

open Console (Color)
open Script (say sayIn)

/-- Prints the user. -/
def whoami : Handler := fun s _ =>
  if s.isRoot then sayIn .lightRed [s.user, " (root privileges)\n"]
  else sayIn .lightGreen [s.user, "\n"]

/-- Asks for the root password. -/
def root : Handler := fun s _ =>
  if s.isRoot then sayIn .lightBrown ["Already in root shell\n"]
  else
    sayIn .lightRed ["Entering root shell...\n", "Password: "] ++
      [.become { s with awaitsPassword := true }]

/-- Takes a line as the answer to the question for the root password. -/
def password (s : Session) (candidate : String) : Script :=
  say ["\n"] ++ [.ink .lightRed] ++
    (if s.settings.opensRoot candidate then
      .become s.enterRoot ::
        say ["*** ROOT SHELL ACTIVATED ***\n", "You now have administrative privileges.\n",
          "Type 'exit' to return to user shell.\n"]
    else say ["Access denied. Incorrect password.\n"]) ++
    [.plain]

/-- Ends a root session. -/
def exit : Handler := fun s _ =>
  if s.isRoot then
    .become s.leaveRoot :: sayIn .lightGreen ["Exited root shell. Returned to user mode.\n"]
  else say ["Not in root shell\n"]

/-- Changes the user. -/
def su : Handler := fun s args =>
  match args with
  | [] => [.fail (.usage .su)]
  | target :: _ =>
    if target = "root" then root s args
    else if target = "user" ∨ target = s.settings.user then
      if s.isRoot then exit s args else say ["Already ", s.user, "\n"]
    else
      [.fail <| .invalid <|
        "unknown user '" ++ target ++ "' (available: root, " ++ s.settings.user ++ ")"]

/-- Prints the host name, or sets it. -/
def hostname : Handler := fun s args =>
  match args with
  | [] => sayIn .lightCyan [s.hostname, "\n"]
  | name :: _ =>
    if s.isRoot then
      .become { s with hostname := name } :: sayIn .lightGreen ["Hostname set to: ", name, "\n"]
    else [.fail (.denied "only root can change hostname")]

/-- Prints the lines typed last. -/
def history : Handler := fun s _ =>
  sayIn .lightBrown ["Command History\n", "===============\n"] ++
    if s.history.isEmpty then say ["No commands in history\n"]
    else
      s.history.numbered.flatMap fun (number, line) =>
        say [Text.padLeft 3 ' ' (Text.decimal number), "  ", line, "\n"]

end RamShell.Shell.Command
