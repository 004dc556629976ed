import RamShell.Terminal
/-!
# RamShell.Main

The terminal program itself: hands arguments, files and standard input to `RamShell.Terminal` and
writes what comes back, line by line as it comes.
-/

namespace RamShell.Main

open Terminal

/-- The system's words for a file that cannot be read. -/
def readFault : IO.Error → String
  | .noFileOrDirectory .. => "No such file or directory (os error 2)"
  | .permissionDenied .. => "Permission denied (os error 13)"
  | .inappropriateType _ code _ =>
    if code == 20 then "Not a directory (os error 20)" else "Is a directory (os error 21)"
  | e => toString e

/-- Reads a file. -/
def readFile (path : String) : IO (Except String Bytes) := do
  try
    return .ok (← IO.FS.readBinFile path).toList
  catch e =>
    return .error (readFault e)

/-- Reads bytes up to a line end or the end of input. There is no line if no byte is left. -/
partial def readLine (input : IO.FS.Stream) (line : Array UInt8) : IO (Option Bytes) := do
  match (← input.read 1).toList with
  | [] => return if line.isEmpty then none else some line.toList
  | b :: _ => if b == 0x0A then return some (line.push b).toList else readLine input (line.push b)

/-- Writes what the console took since the last time, and clears its log. -/
def flush (st : State) : IO State := do
  IO.print st.output
  (← IO.getStdout).flush
  return { st with console := .fresh }

/-- Shows prompts and takes what is typed at them. -/
partial def interact (input : IO.FS.Stream) (st : State) : IO (State × Option String) := do
  let st ← flush st.prompt
  match takeTyped st (← readLine input #[]) with
  | .ended st fault => return (st, fault)
  | .next st => interact input st

/-- Writes a report, and returns its exit code. -/
def publish (report : Report) : IO UInt32 := do
  IO.print report.stdout
  IO.eprint report.stderr
  return report.code.toUInt32

end RamShell.Main

open RamShell RamShell.Main RamShell.Terminal in
/-- Runs the shell on a script, or on standard input. -/
def main (args : List String) : IO UInt32 := do
  match usageCode? args, Volume.seeded, args with
  | none, .ok volume, [] =>
    let (st, fault) ← interact (← IO.getStdin) ((State.start volume).display Shell.Command.greeting)
    publish (conclude st fault)
  | _, _, args =>
    let found ← readFile (args.headD "")
    publish (run ⟨fun _ => found, []⟩ args)
