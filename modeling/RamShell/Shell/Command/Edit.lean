import RamShell.Shell.Line
import RamShell.Shell.Script
import RamShell.Text.Numeral
import RamShell.Volume.Update
/-!
# RamShell.Shell.Command.Edit

The commands that change the volume: `mkdir`, `touch`, `rm`, `chmod`, `write` and `echo`.

Design points:

* The volume itself makes entries anywhere. It is the commands that ask for a parent directory
  first, so that what a user makes is always reachable by listing.
* `rm` keeps the working directory and all directories around it.
-/

namespace RamShell.Shell.Command

open Console (Color)
open Script (say sayIn change)

/-- A line of good news. -/
def confirm (texts : List String) : Script := sayIn .lightGreen (texts ++ ["\n"])

/-- Fails unless the parent of a canonical path is a directory. -/
def checkParent (v : Volume) (path : String) : Except Volume.Error Unit :=
  match v.kindAt (Path.parent path) with
  | .directory => .ok ()
  | .file => .error .notADirectory
  | .unknown => .error .notFound

/-- A change that is made only if the check before it passes. -/
def guarded (v : Volume) (check : Except Volume.Error Unit) (result : Volume.Result Unit) :
    Volume.Result Unit :=
  match check with
  | .ok () => result
  | .error e => (.error e, v)

/-- Makes a directory, with the option `-p` also what is missing on the way to it. -/
def mkdir : Handler := fun s args =>
  match args.find? (· != "-p") with
  | none => [.fail (.usage .mkdir)]
  | some target =>
    let path := s.resolve target
    let result :=
      if args.contains "-p" then s.volume.createDirs path
      else guarded s.volume (checkParent s.volume path) (s.volume.create path true)
    change s target result (confirm ["Directory '", target, "' created"])

/-- Makes an empty file. -/
def touch : Handler := fun s args =>
  match args with
  | [] => [.fail (.usage .touch)]
  | target :: _ =>
    let path := s.resolve target
    change s target
      (guarded s.volume (checkParent s.volume path) (s.volume.create path false))
      (confirm ["File '", target, "' created"])

/-- Whether a canonical path is the working directory or a directory around it. -/
def enclosesCwd (s : Session) (path : String) : Bool :=
  s.cwd == path || (Path.below? (Path.childStem path) s.cwd).isSome

/-- Removes a file or an empty directory. -/
def rm : Handler := fun s args =>
  match args with
  | [] => [.fail (.usage .rm)]
  | target :: _ =>
    let path := s.resolve target
    if path != Path.root && enclosesCwd s path then
      [.fail (.invalid ("'" ++ target ++ "' contains the current directory"))]
    else change s target (s.volume.delete path) (confirm ["'", target, "' removed"])

/-- The permission bits that a word denotes: octal digits, at most nine bits. -/
def readMode? (word : String) : Option UInt16 :=
  match Text.readNat? 8 word with
  | some n => if n ≤ 0o777 then some (UInt16.ofNat n) else none
  | none => none

/-- Changes the permission bits of an entry. -/
def chmod : Handler := fun s args =>
  match args with
  | word :: target :: _ =>
    match readMode? word with
    | none => [.fail (.invalid word)]
    | some mode =>
      let path := s.resolve target
      let result := s.volume.setPermissions path mode
      change s target result
        (confirm ["'", target, "' is now ", result.2.permissionsAt path])
  | _ => [.fail (.usage .chmod)]

/-- Words as a line of text. -/
def lineOf (ws : List String) : String := " ".intercalate ws ++ "\n"

/-- Puts bytes into a file, in place of what it holds or after it. A file is made only in a
directory that exists. -/
def put (v : Volume) (path : String) (bytes : Bytes) (append : Bool) : Volume.Result Unit :=
  match v.kindAt path with
  | .directory => (.error .isDirectory, v)
  | .file =>
    if append then
      match v.readAll path with
      | .ok held => v.write path (held ++ bytes)
      | .error e => (.error e, v)
    else v.write path bytes
  | .unknown => guarded v (checkParent v path) (v.write path bytes)

/-- Replaces the content of a file by words. -/
def write : Handler := fun s args =>
  match args with
  | target :: word :: ws =>
    let bytes := Text.encode (lineOf (word :: ws))
    change s target (put s.volume (s.resolve target) bytes false)
      (confirm ["Wrote ", Text.decimal bytes.length, " bytes to '", target, "'"])
  | _ => [.fail (.usage .write)]

/-- Prints words, or puts them into a file. -/
def echo : Handler := fun s args =>
  let (ws, redirect) := Redirect.split args
  let line := lineOf ws
  match redirect with
  | .none => say [line]
  | .truncate file =>
    change s file (put s.volume (s.resolve file) (Text.encode line) false) []
  | .append file =>
    change s file (put s.volume (s.resolve file) (Text.encode line) true) []

end RamShell.Shell.Command
