import RamShell.Shell.Builtin
import RamShell.Volume.Error
/-!
# RamShell.Shell.Error

The reasons for which a command can fail. The shell prints them after the name of the command and
goes on with the next line.
-/

namespace RamShell.Shell

/-- Why a command failed. -/
inductive Error
  /-- The volume refused something about a path, which is kept as it was typed. -/
  | volume (path : String) (cause : Volume.Error)
  /-- Arguments are missing or too many. -/
  | usage (command : Builtin)
  /-- The session lacks the privilege. -/
  | denied (reason : String)
  /-- An argument makes no sense. -/
  | invalid (argument : String)
  /-- The console refused a text. -/
  | refused
  deriving DecidableEq, Repr

namespace Error

/-- The wording of an error. -/
def message : Error → String
  | volume path cause => path ++ ": " ++ cause.message
  | usage command => "usage: " ++ command.usage
  | denied reason => "permission denied: " ++ reason
  | invalid argument => "invalid argument: " ++ argument
  | refused => "console write failed"

end Error

end RamShell.Shell
