/-!
# RamShell.Shell.Builtin

The commands of the shell, and what `help` tells about each.
-/

namespace RamShell.Shell

/-- The groups in which `help` lists the commands. -/
inductive Category
  /-- Commands on files and directories. -/
  | files
  /-- Commands on the system as a whole. -/
  | system
  /-- Commands on the user of the session. -/
  | session
  /-- All others. -/
  | utility
  deriving DecidableEq, Repr

namespace Category

/-- The groups in the order of `help`. -/
def all : List Category := [files, system, session, utility]

/-- The name of a group in records. -/
def label : Category → String
  | files => "Files"
  | system => "System"
  | session => "Session"
  | utility => "Utility"

/-- The heading of a group. -/
def title : Category → String
  | files => "File System Commands"
  | system => "System Commands"
  | session => "User Management"
  | utility => "Utility Commands"

end Category

/-- A command of the shell. -/
inductive Builtin
  /-- List a directory. -/
  | ls
  /-- Change the working directory. -/
  | cd
  /-- Print the working directory. -/
  | pwd
  /-- Make a directory. -/
  | mkdir
  /-- Make an empty file. -/
  | touch
  /-- Replace the content of a file. -/
  | write
  /-- Print a file. -/
  | cat
  /-- Remove an entry. -/
  | rm
  /-- Change permission bits. -/
  | chmod
  /-- Draw a directory tree. -/
  | tree
  /-- Clear the screen. -/
  | clear
  /-- Describe the system. -/
  | info
  /-- Describe the volume or one entry. -/
  | stat
  /-- Stop. -/
  | halt
  /-- Print the user. -/
  | whoami
  /-- Change the user. -/
  | su
  /-- Become root. -/
  | root
  /-- Stop being root. -/
  | exit
  /-- Print words, or put them into a file. -/
  | echo
  /-- Calculate. -/
  | calculate
  /-- Print the lines typed last. -/
  | history
  /-- Print or set the host name. -/
  | hostname
  /-- Print the banner. -/
  | banner
  /-- Describe the commands. -/
  | help
  deriving DecidableEq, Repr

namespace Builtin

/-- Every command, in the order of `help` within each group. -/
def all : List Builtin :=
  [ls, cd, pwd, mkdir, touch, write, cat, rm, chmod, tree, clear, info, stat, halt, whoami, su,
    root, exit, echo, calculate, history, hostname, banner, help]

/-- The word that calls a command. -/
def name : Builtin → String
  | ls => "ls"
  | cd => "cd"
  | pwd => "pwd"
  | mkdir => "mkdir"
  | touch => "touch"
  | write => "write"
  | cat => "cat"
  | rm => "rm"
  | chmod => "chmod"
  | tree => "tree"
  | clear => "clear"
  | info => "info"
  | stat => "stat"
  | halt => "halt"
  | whoami => "whoami"
  | su => "su"
  | root => "root"
  | exit => "exit"
  | echo => "echo"
  | calculate => "calc"
  | history => "history"
  | hostname => "hostname"
  | banner => "banner"
  | help => "help"

/-- What a command does, in one line. -/
def summary : Builtin → String
  | ls => "List directory contents"
  | cd => "Change directory (supports .. for parent)"
  | pwd => "Print working directory"
  | mkdir => "Create directory"
  | touch => "Create empty file"
  | write => "Replace file contents"
  | cat => "Display file contents"
  | rm => "Remove file or empty directory"
  | chmod => "Change permission bits"
  | tree => "Show directory tree"
  | clear => "Clear screen"
  | info => "Show system information"
  | stat => "File system statistics, or details of one entry"
  | halt => "Stop the shell"
  | whoami => "Current user"
  | su => "Switch user"
  | root => "Enter root shell"
  | exit => "Exit root shell"
  | echo => "Display text, optionally into a file"
  | calculate => "Integer calculator"
  | history => "Command history"
  | hostname => "Display or set hostname"
  | banner => "Display Alpha OS banner"
  | help => "This help message"

/-- How a command is written. -/
def usage : Builtin → String
  | ls => "ls [-l] [directory]"
  | cd => "cd [directory]"
  | pwd => "pwd"
  | mkdir => "mkdir [-p] <directory>"
  | touch => "touch <file>"
  | write => "write <file> <text...>"
  | cat => "cat <file>"
  | rm => "rm <path>"
  | chmod => "chmod <octal-mode> <path>"
  | tree => "tree [directory]"
  | clear => "clear"
  | info => "info"
  | stat => "stat [path]"
  | halt => "halt"
  | whoami => "whoami"
  | su => "su [root|user]"
  | root => "root"
  | exit => "exit"
  | echo => "echo <text...> [> file | >> file]"
  | calculate => "calc <a> <op> <b>"
  | history => "history"
  | hostname => "hostname [name]"
  | banner => "banner"
  | help => "help [command]"

/-- The group of a command. -/
def category : Builtin → Category
  | ls | cd | pwd | mkdir | touch | write | cat | rm | chmod | tree => .files
  | clear | info | stat | halt => .system
  | whoami | su | root | exit => .session
  | echo | calculate | history | hostname | banner | help => .utility

/-- The command that a word calls. -/
def lookup? (word : String) : Option Builtin := all.find? (·.name == word)

theorem mem_all (b : Builtin) : b ∈ all := by
  cases b <;> decide

@[simp] theorem lookup?_name (b : Builtin) : lookup? b.name = some b := by
  cases b <;> decide

/-- A word calls the command of this name and no other. -/
theorem lookup?_eq_some_iff {word : String} {b : Builtin} :
    lookup? word = some b ↔ b.name = word := by
  constructor
  · intro h
    simpa using List.find?_some h
  · rintro rfl
    exact lookup?_name b

end Builtin

end RamShell.Shell
