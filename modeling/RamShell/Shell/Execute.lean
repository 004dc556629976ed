import RamShell.Shell.Command.About
import RamShell.Shell.Command.Browse
import RamShell.Shell.Command.Calculator
import RamShell.Shell.Command.Edit
import RamShell.Shell.Command.Login
import RamShell.Shell.Command.Tree
import RamShell.Shell.Line
/-!
# RamShell.Shell.Execute

What one line of input does. A line is a password if one is due, and otherwise the words of a
command; a line without words does nothing. Whatever a line says, it is the only one that is taken as
the password.

Design points:

* A failed command is reported on the console and the shell goes on. Nothing but `halt` stops it,
  and `halt` only once its message is out.
* A command is in the history before it is run, whether it exists or not. A password is never in
  the history.
-/

namespace RamShell.Shell

open Console (Color)
open Script (say sayIn play)

/-- Whether the shell goes on after a line. -/
inductive Outcome
  /-- The next line can come. -/
  | proceed
  /-- The shell stops. -/
  | halt
  deriving DecidableEq, Repr

/-- What each command does. -/
def Builtin.handler : Builtin → Handler
  | ls => Command.ls
  | cd => Command.cd
  | pwd => Command.pwd
  | mkdir => Command.mkdir
  | touch => Command.touch
  | write => Command.write
  | cat => Command.cat
  | rm => Command.rm
  | chmod => Command.chmod
  | tree => Command.tree
  | clear => Command.clear
  | info => Command.info
  | stat => Command.stat
  | halt => Command.halt
  | whoami => Command.whoami
  | su => Command.su
  | root => Command.root
  | exit => Command.exit
  | echo => Command.echo
  | calculate => Command.calculator
  | history => Command.history
  | hostname => Command.hostname
  | banner => Command.banner
  | help => Command.help

/-- What follows a command that ran to its end. -/
def Builtin.outcome : Builtin → Outcome
  | halt => .halt
  | _ => .proceed

namespace Session

/-- Puts a script on the console, whether all of it is taken or not. -/
def display (s : Session) (script : Script) (c : Console) : Session × Console :=
  (play script s c).2

/-- Reports a failed command. The default colors are set even if the report is refused. -/
def report (s : Session) (name : String) (e : Error) (c : Console) : Session × Console :=
  let (s, c) := s.display (.ink .lightRed :: say [name, ": ", e.message, "\n"]) c
  s.display [.plain] c

/-- Carries a script out on the console: plays it, and reports under `name` what went wrong. Says
whether nothing did. -/
def carryOut (name : String) (script : Script) (s : Session) (c : Console) :
    Bool × Session × Console :=
  match play script s c with
  | (.ok (), s, c) => (true, s, c)
  | (.error e, s, c) => (false, s.report name e c)

/-- What is written for a word that is no command. -/
def unknownScript (s : Session) (word : String) : Script :=
  sayIn .lightRed [s.hostname, ": command not found: ", word, "\n"] ++
    say ["Type 'help' for a list of available commands\n"]

/-- Runs the words of a command. -/
def run (s : Session) (word : String) (args : List String) (c : Console) :
    Outcome × Session × Console :=
  match Builtin.lookup? word with
  | none => (.proceed, s.display (s.unknownScript word) c)
  | some b =>
    let (ran, s, c) := carryOut word (b.handler s args) s c
    (if ran then b.outcome else .proceed, s, c)

/-- Takes one line of input. -/
def execute (s : Session) (line : String) (c : Console) : Outcome × Session × Console :=
  let text := Text.trim (clamp line)
  if s.awaitsPassword then
    let s := { s with awaitsPassword := false }
    (.proceed, (carryOut Builtin.root.name (Command.password s text) s c).2)
  else
    match tokens line with
    | [] => (.proceed, s, c)
    | word :: args => run { s with history := s.history.push text } word args c

end Session

end RamShell.Shell
