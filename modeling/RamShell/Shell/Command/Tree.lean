import RamShell.Shell.Line
import RamShell.Shell.Script
import RamShell.Text.Numeral
/-!
# RamShell.Shell.Command.Tree

Drawing a directory tree. The drawing goes by names: it lists a directory, writes a line for each
name, and where the name is that of a directory, lists what the name leads to in turn. So a listing
on the way can fail, and what was drawn before it stays.

What goes along with the drawing is its *sketch*: the lines so far, the marks in front of the next
one, and the counts. The marks are shared by all levels. A directory adds its own for the lines below
it, and cuts them off again behind the last of these.

The drawing goes down a bounded number of levels, so it ends whatever the volume holds.
-/

namespace RamShell.Shell.Command

open Console (Color)
open Script (say sayIn)

/-- The deepest level drawn. -/
def treeDepth : Nat := 32

/-- What goes along with a drawing. -/
structure Sketch where
  /-- What is written so far. -/
  script : Script
  /-- The marks in front of a line: what stands for the directories around the entry. -/
  indent : String
  /-- The number of directories drawn. -/
  directories : Nat
  /-- The number of files drawn. -/
  files : Nat
  deriving DecidableEq, Repr

namespace Sketch

/-- Nothing is drawn yet. -/
def blank : Sketch := ⟨[], "", 0, 0⟩

/-- Writes behind what is written. -/
def write (sk : Sketch) (script : Script) : Sketch := { sk with script := sk.script ++ script }

/-- Counts a directory. -/
def countDirectory (sk : Sketch) : Sketch := { sk with directories := sk.directories + 1 }

/-- Counts a file. -/
def countFile (sk : Sketch) : Sketch := { sk with files := sk.files + 1 }

/-- Adds a mark. -/
def push (sk : Sketch) (mark : String) : Sketch := { sk with indent := sk.indent ++ mark }

/-- Cuts the marks to a length in bytes. -/
def truncate (sk : Sketch) (size : Nat) : Sketch :=
  { sk with indent := String.ofList (takeBytes size sk.indent.toList) }

end Sketch

/-- A part of a drawing. If it fails, its sketch holds what was drawn before. -/
abbrev Drawing := EStateM Error Sketch

/-- Draws with one more mark in front of the lines. -/
def indented (mark : String) (drawing : Drawing Unit) : Drawing Unit := do
  let size := (← get).indent.utf8ByteSize
  modify (·.push mark)
  drawing
  modify (·.truncate size)

/-- The name of a directory, by its name in a listing. -/
def directoryName? (name : String) : Option String :=
  if name.toList.getLast? = some '/' then some (String.ofList name.toList.dropLast) else none

/-- Draws a name of a listing. `below` draws what is in the directory of that name. -/
def drawName (below : String → Drawing Unit) (name : String) (isLast : Bool) : Drawing Unit := do
  modify fun sk => sk.write (say [sk.indent, if isLast then "└── " else "├── "])
  match directoryName? name with
  | some child =>
    modify (·.countDirectory)
    modify (·.write (sayIn .lightBlue [name, "\n"]))
    below child
  | none =>
    modify (·.countFile)
    modify (·.write (say [name, "\n"]))

/-- Draws the names of a directory. `below` is told of each whether it is the last one. -/
def drawListing (v : Volume) (below : Bool → String → Drawing Unit) (dir : String) :
    Drawing Unit :=
  match v.list dir with
  | .error e => throw (.volume dir e)
  | .ok names =>
    names.zipIdx.forM fun (name, i) =>
      let isLast := i + 1 == names.length
      drawName (below isLast) name isLast

/-- The mark of a directory in front of what is below it. -/
def markOf (isLast : Bool) : String := if isLast then "    " else "│   "

/-- Draws what is in a directory, and below it down to `levels` more levels. -/
def draw (v : Volume) : Nat → String → Drawing Unit
  | 0, dir => drawListing v (fun _ _ => pure ()) dir
  | levels + 1, dir =>
    drawListing v
      (fun isLast child => indented (markOf isLast) (draw v levels (Path.join dir child))) dir

/-- Draws a directory; without a word, the working directory. -/
def tree : Handler := fun s args =>
  let dir := s.resolve (args.head?.getD ".")
  match s.volume.list dir with
  | .error e => [.fail (.volume (args.head?.getD dir) e)]
  | .ok _ =>
    let heading := sayIn .lightBlue [dir, "\n"]
    match draw s.volume (treeDepth - 1) dir .blank with
    | .error e sk => heading ++ sk.script ++ [.fail e]
    | .ok () sk =>
      heading ++ sk.script ++
        say ["\n", Text.decimal sk.directories, " directories, ", Text.decimal sk.files, " files\n"]

end RamShell.Shell.Command
