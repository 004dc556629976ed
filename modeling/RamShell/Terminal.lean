import RamShell.Console.Ansi
import RamShell.Shell.Execute
import RamShell.Shell.Prompt
import RamShell.Volume.Skeleton
/-!
# RamShell.Terminal

The terminal program as a function of its arguments, its input and the files around it.

It boots a seeded volume, greets, and runs lines: those of a script if one is named, else those of
standard input. Between lines it shows the prompt. A script's lines are echoed after the prompt,
as if they were typed, except for a password.

Design points:

* The two ways to run lines share `State.prompt` and `State.execute`; they differ in how lines are
  cut from the input and in the echo.
* A script has to be text as a whole before its first line runs. Typed input is read line by line,
  so lines before a broken one have run already.
-/

namespace RamShell.Terminal

open Shell (Session Settings Outcome Script)

/-! ### Lines of input -/

/-- Removes one carriage return from the end of a line. -/
def dropReturn (line : List Char) : List Char :=
  if line.getLast? = some '\r' then line.dropLast else line

/-- The lines of a script. A carriage return before a line end belongs to the line end; the last
line needs no end, and then keeps its carriage return. -/
def scriptLines (text : String) : List String :=
  let pieces := Text.pieces (· == '\n') text.toList
  let unended := (pieces.getLast?.filter (!·.isEmpty)).toList
  (pieces.dropLast.map dropReturn ++ unended).map String.ofList

/-- The lines of typed input as raw bytes, each with its line end. -/
def typedLines : Bytes → List Bytes
  | [] => []
  | b :: bs =>
    if b == 0x0A then [b] :: typedLines bs
    else
      match typedLines bs with
      | [] => [[b]]
      | line :: lines => (b :: line) :: lines

/-- What is typed on a line: all line ends and carriage returns at its end are dropped. -/
def typedText (line : String) : String :=
  String.ofList (Text.dropTrailing (fun c => c == '\n' || c == '\r') line.toList)

/-! ### Running lines -/

/-- The shell and the console it writes to. -/
structure State where
  /-- The shell. -/
  session : Session
  /-- The console. -/
  console : Console

namespace State

/-- A freshly started shell over a volume. -/
def start (volume : Volume) : State := ⟨.start volume .standard, .fresh⟩

/-- The state after a script was put on the console. -/
def display (st : State) (script : Script) : State :=
  let (session, console) := st.session.display script st.console
  ⟨session, console⟩

/-- Shows the prompt. -/
def prompt (st : State) : State := st.display st.session.promptScript

/-- Writes a line that is no output of a command. -/
def echo (st : State) (line : String) : State :=
  { st with console := st.console.write (line ++ "\n") }

/-- Runs a line. -/
def execute (st : State) (line : String) : Outcome × State :=
  let (outcome, session, console) := st.session.execute line st.console
  (outcome, ⟨session, console⟩)

/-- What was written so far, as it goes to the terminal. -/
def output (st : State) : String := Console.Ansi.renderAll st.console.events

end State

/-- What is said of input that is not UTF-8. -/
def notText : String := "stream did not contain valid UTF-8"

/-- Runs the lines of a script up to the one that stops the shell. -/
def runScripted (st : State) : List String → State
  | [] => st
  | line :: lines =>
    let prompted := st.prompt
    let st := if prompted.session.awaitsPassword then prompted else prompted.echo line
    match st.execute line with
    | (.halt, st) => st
    | (.proceed, st) => runScripted st lines

/-- What comes of a prompt for a typed line. -/
inductive Progress
  /-- The next prompt can be shown. -/
  | next (st : State)
  /-- The run is over, and this is what went wrong if anything did. -/
  | ended (st : State) (fault : Option String)

/-- The end of a run behind whose last prompt nothing is read any more. -/
def Progress.ending : Progress → State × Option String
  | next st => (st, none)
  | ended st fault => (st, fault)

/-- Takes what is typed at the prompt on the screen: a line, or none at the end of input. A line may
stop the shell, or be no text. -/
def takeTyped (st : State) : Option Bytes → Progress
  | none => .ended (st.echo "") none
  | some line =>
    match Text.decode? line with
    | none => .ended st (some notText)
    | some text =>
      match st.execute (typedText text) with
      | (.halt, st) => .ended st none
      | (.proceed, st) => .next st

/-- Runs typed lines up to the first that ends the run, or to the end of input. -/
def runTyped (st : State) : List Bytes → State × Option String
  | [] => (takeTyped st.prompt none).ending
  | line :: lines =>
    match takeTyped st.prompt (some line) with
    | .ended st fault => (st, fault)
    | .next st => runTyped st lines

/-! ### The program -/

/-- What the program finds around it. -/
structure Host where
  /-- The content of a file, or why it cannot be read. -/
  fileAt : String → Except String Bytes
  /-- Everything on standard input. -/
  stdin : Bytes

/-- What the program leaves behind. -/
structure Report where
  /-- The exit code. -/
  code : Nat
  /-- Standard output. -/
  stdout : String
  /-- Standard error. -/
  stderr : String
  deriving DecidableEq, Repr

/-- How the program is called. -/
def usageText : String :=
  "Usage: alpha-term [script-file]\n\n" ++
    "Runs the Alpha OS shell over a freshly seeded in-memory filesystem.\n" ++
    "With a script, each line is executed as if typed; otherwise stdin is read.\n"

/-- The exit code, if the arguments ask for the usage text: on request, or because there are too
many. -/
def usageCode? (args : List String) : Option Nat :=
  if args.any fun a => a == "-h" || a == "--help" then some 0
  else if 1 < args.length then some 1
  else none

/-- The line on standard error for something that went wrong. -/
def errorLine (message : String) : String := "Error: " ++ message ++ "\n"

/-- The text of a script file, or why there is none. -/
def readScript (host : Host) (path : String) : Except String String :=
  let refuse := fun why : String => Except.error ("cannot read script " ++ path ++ ": " ++ why)
  match host.fileAt path with
  | .error why => refuse why
  | .ok bytes =>
    match Text.decode? bytes with
    | none => refuse notText
    | some text => .ok text

/-- Runs a greeted shell over the lines that the arguments name. -/
def runLines (host : Host) (st : State) : List String → State × Option String
  | [] => runTyped st (typedLines host.stdin)
  | path :: _ =>
    match readScript host path with
    | .error message => (st, some message)
    | .ok text => (runScripted st (scriptLines text), none)

/-- The end of a run. The terminal gets its colors back in any case. -/
def conclude (st : State) (fault : Option String) : Report where
  code := if fault.isSome then 1 else 0
  stdout := st.output ++ Console.Ansi.restore
  stderr := (fault.map errorLine).getD ""

/-- What is said if a fresh volume cannot be seeded. -/
def seedFault (e : Volume.Error) : Report :=
  ⟨1, "", errorLine ("failed to seed filesystem: " ++ e.message)⟩

/-- The program. -/
def run (host : Host) (args : List String) : Report :=
  match usageCode? args with
  | some code => ⟨code, "", usageText⟩
  | none =>
    match Volume.seeded with
    | .error e => seedFault e
    | .ok volume =>
      let (st, fault) := runLines host ((State.start volume).display Shell.Command.greeting) args
      conclude st fault

end RamShell.Terminal
