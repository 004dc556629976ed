import RamShell.Shell.Script
import RamShell.Text.Numeral
/-!
# RamShell.Shell.Command.About

The commands about the system and the shell itself: `banner`, `help`, `info`, `clear` and `halt`.
None of them changes the session.
-/

namespace RamShell.Shell.Command

open Console (Color)
open Script (say sayIn)

/-- The lettering of the banner. -/
def bannerLines : List String :=
  ["    _    _       _             ___  ____  ",
    "   / \\  | |_ __ | |__   __ _  / _ \\/ ___| ",
    "  / _ \\ | | '_ \\| '_ \\ / _` || | | \\___ \\ ",
    " / ___ \\| | |_) | | | | (_| || |_| |___) |",
    "/_/   \\_\\_| .__/|_| |_|\\__,_| \\___/|____/ ",
    "          |_|                             "]

/-- The banner with name and version of the system. -/
def bannerScript : Script :=
  sayIn .lightCyan (bannerLines.flatMap fun line => [line, "\n"]) ++
    say ["Alpha OS", " - a small operating system for learning\n", "Version ", "1.0.0", "\n\n"]

/-- Prints the banner. -/
def banner : Handler := fun _ _ => bannerScript

/-- What the shell writes when it starts. -/
def greeting : Script :=
  bannerScript ++ sayIn .lightGreen ["Alpha Shell v2.0 initialized\n"] ++
    say ["Type 'help' for available commands or 'info' for system information\n",
      "Type 'root' to enter root shell\n"]

/-- The commands of one group. -/
def categoryScript (category : Category) : Script :=
  say ["\n", category.title, ":\n"] ++
    (Builtin.all.filter (·.category == category)).flatMap fun b =>
      say ["  ", Text.padRight 12 b.name, " - ", b.summary, "\n"]

/-- The list of all commands. -/
def helpScript : Script :=
  sayIn .lightBrown ["Alpha OS Shell Commands\n", "=======================\n"] ++
    Category.all.flatMap categoryScript ++
    say ["\nTip: Use 'help <command>' for detailed information about a command\n"]

/-- Describes a command; without a word, lists all commands. -/
def help : Handler := fun _ args =>
  match args with
  | [] => helpScript
  | word :: _ =>
    match Builtin.lookup? word with
    | none => [.fail (.invalid ("unknown command '" ++ word ++ "'"))]
    | some b =>
      sayIn .lightBrown ["Command: ", b.name, "\n"] ++
        say ["Description: ", b.summary, "\n", "Usage: ", b.usage, "\n"]

/-- Describes the system. -/
def info : Handler := fun s _ =>
  let u := s.volume.usage
  sayIn .lightCyan ["Alpha OS System Information\n", "===========================\n"] ++
    say ["OS Name:         ", "Alpha OS", "\n",
      "Version:         ", "1.0.0", "\n",
      "Kernel:          ", "AlphaKernel", "\n",
      "Shell:           ", "AlphaShell v2.0", "\n",
      "Hostname:        ", s.hostname, "\n",
      "File System:     ", Text.decimal u.files, " files, ", Text.decimal u.directories,
        " directories, ", Text.decimal (u.bytesUsed / 1024), " KB used\n",
      "Current User:    ", s.user] ++
    (if s.isRoot then sayIn .lightRed [" (ROOT)"] else []) ++
    say ["\n"]

/-- Clears the screen. -/
def clear : Handler := fun _ _ => [.clear]

/-- Says that the shell stops. -/
def halt : Handler := fun _ _ => sayIn .lightRed ["System halted.\n"]

end RamShell.Shell.Command
