import RamShell.Shell.History
import RamShell.Shell.Settings
import RamShell.Volume.Query
/-!
# RamShell.Shell.Session

The state of a shell: the volume it works on, where it is, who its user is and what was typed.

Design points:

* Whether the session is root, the name of its user and the pending question for the root password
  are fields of their own, each of them set where a command sets it. That they fit together is
  nothing that the type promises.
* Starting and ending a root session both lead home, and the root directory stands in for a home
  that is no directory.
-/

namespace RamShell.Shell

/-- The state of a shell. -/
structure Session where
  /-- The volume that the commands work on. -/
  volume : Volume
  /-- What the shell was started with. -/
  settings : Settings
  /-- The working directory. -/
  cwd : String
  /-- The name of the user. -/
  user : String
  /-- Whether this is a root session. -/
  isRoot : Bool
  /-- The host name. -/
  hostname : String
  /-- The lines typed last. -/
  history : History
  /-- Whether the next line is taken as the root password. -/
  awaitsPassword : Bool
  deriving DecidableEq, Repr

namespace Session

/-- A session that starts in the root directory. -/
def start (volume : Volume) (settings : Settings) : Session where
  volume := volume
  settings := settings
  cwd := Path.root
  user := settings.user
  isRoot := false
  hostname := settings.hostname
  history := .empty settings.historySize
  awaitsPassword := false

/-- A path as it was typed, resolved against the working directory. -/
def resolve (s : Session) (path : String) : String := Path.resolve path s.cwd

/-- The home directory that the settings have for the user. -/
def home (s : Session) : String := if s.isRoot then s.settings.rootHome else s.settings.userHome

/-- The directory at home, or the root directory if there is none. -/
def homeDirectory (s : Session) : String :=
  match s.volume.changeDirectory s.home Path.root with
  | .ok dir => dir
  | .error _ => Path.root

/-- Goes home. -/
def goHome (s : Session) : Session := { s with cwd := s.homeDirectory }

/-- Starts a root session, at home. -/
def enterRoot (s : Session) : Session := goHome { s with isRoot := true, user := "root" }

/-- Ends a root session, at home. -/
def leaveRoot (s : Session) : Session := goHome { s with isRoot := false, user := s.settings.user }

end Session

end RamShell.Shell
