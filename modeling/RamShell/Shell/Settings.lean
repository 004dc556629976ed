/-!
# RamShell.Shell.Settings

What a shell is started with.
-/

namespace RamShell.Shell

/-- The settings of a shell. -/
structure Settings where
  /-- The host name at the start. -/
  hostname : String
  /-- The name of the ordinary user. -/
  user : String
  /-- The home directory of the ordinary user. -/
  userHome : String
  /-- The home directory of root. -/
  rootHome : String
  /-- The passwords that open the root shell. -/
  rootPasswords : List String
  /-- How many lines the history holds. -/
  historySize : Nat
  /-- The greatest width of a directory in the prompt before it is shortened. -/
  promptWidth : Nat
  deriving DecidableEq, Repr

namespace Settings

/-- The standard settings. -/
def standard : Settings where
  hostname := "alphaos"
  user := "user"
  userHome := "/home/user"
  rootHome := "/root"
  rootPasswords := ["root", "admin"]
  historySize := 50
  promptWidth := 20

/-- Whether a password opens the root shell. -/
def opensRoot (s : Settings) (candidate : String) : Bool :=
  s.rootPasswords.contains candidate

end Settings

end RamShell.Shell
