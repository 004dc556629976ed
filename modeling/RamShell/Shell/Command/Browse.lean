import RamShell.Shell.Script
import RamShell.Text.Numeral
/-!
# RamShell.Shell.Command.Browse

The commands that look at the volume: `ls`, `cd`, `pwd`, `cat` and `stat`. Of these `cd` alone
changes the session, and none changes the volume.
-/

namespace RamShell.Shell.Command

open Console (Color)
open Script (say sayIn)

/-! ### `ls` -/

/-- How many names the short listing puts on a row. -/
def listColumns : Nat := 4

/-- How wide a column of the short listing is. -/
def listWidth : Nat := 20

/-- The color of a name in a listing. -/
def entryColor (isDirectory : Bool) : Color :=
  if isDirectory then .lightBlue else .lightGrey

/-- The short listing: names in columns, a row after another. -/
def shortListing (entries : List Volume.Entry) : Script :=
  (entries.zipIdx 1).flatMap (fun (e, i) =>
      .ink (entryColor e.isDirectory) :: .print (Text.padRight listWidth e.listingName) ::
        if i % listColumns = 0 then say ["\n"] else []) ++
    (if entries.length % listColumns = 0 then [] else say ["\n"]) ++ [.plain]

/-- The long listing: permissions, size and name, one entry a line. -/
def longListing (dir : String) (entries : List Volume.Entry) : Script :=
  say ["total ", Text.decimal entries.length, " entries in ", dir, ":\n"] ++
    entries.flatMap (fun e =>
      .ink (entryColor e.isDirectory) ::
        say [e.permissionText, " ", Text.padLeft 8 ' ' (Text.decimal e.size), " ",
          e.listingName, "\n"]) ++
    [.plain]

/-- Lists a directory. The last word that is not the option `-l` is the directory. -/
def ls : Handler := fun s args =>
  let target := (args.filter (· != "-l")).getLast?
  let dir := s.resolve (target.getD ".")
  match s.volume.list dir with
  | .error e => [.fail (.volume (target.getD dir) e)]
  | .ok [] => say ["Directory is empty\n"]
  | .ok _ =>
    let entries := s.volume.children dir
    if args.contains "-l" then longListing dir entries else shortListing entries

/-! ### The working directory -/

/-- Changes the working directory; without a word, or with a tilde, to home. -/
def cd : Handler := fun s args =>
  let (target, base) :=
    match args with
    | [] | "~" :: _ => (s.home, Path.root)
    | target :: _ => (target, s.cwd)
  match s.volume.changeDirectory target base with
  | .ok dir => [.become { s with cwd := dir }]
  | .error e => [.fail (.volume target e)]

/-- Prints the working directory. -/
def pwd : Handler := fun s _ => sayIn .lightBlue [s.cwd, "\n"]

/-! ### Content and records -/

/-- Prints a text, and a line end if the text does not have one. -/
def sayLines (text : String) : Script :=
  say (text :: if text.toList.getLast?.all (· == '\n') then [] else ["\n"])

/-- Prints a file. Bytes that are no text show as replacement characters. -/
def cat : Handler := fun s args =>
  match args with
  | [] => [.fail (.usage .cat)]
  | target :: _ =>
    match s.volume.readAll (s.resolve target) with
    | .ok bytes => sayLines (Text.decodeLossy bytes)
    | .error e => [.fail (.volume target e)]

/-- A number of bytes, also in whole kilobytes. -/
def sayBytes (label : String) (n : Nat) : Script :=
  say [label, Text.decimal n, " bytes (", Text.decimal (n / 1024), " KB)\n"]

/-- The usage figures of the volume. -/
def usageReport (u : Volume.Usage) : Script :=
  sayIn .lightBrown ["Alpha OS File System Statistics\n", "===============================\n"] ++
    say ["Entries:         ", Text.decimal u.entries, " (", Text.decimal u.files, " files, ",
      Text.decimal u.directories, " directories)\n"] ++
    sayBytes "Used space:      " u.bytesUsed ++
    sayBytes "Free space:      " u.bytesFree ++
    sayBytes "Total capacity:  " u.capacity ++
    say ["Usage:           ", Text.decimal u.percent, "%\n"]

/-- The record of one entry. -/
def entryReport (e : Volume.Entry) : Script :=
  say ["  Path: ", e.path, "\n",
    "  Type: ", e.kind.text, "\n",
    "  Size: ", Text.decimal e.size, " bytes\n",
    "Access: ", e.permissionText, " (",
      Text.padLeft 4 '0' (Text.octal e.permissions.mode.toNat), ")\n",
    "Extent: offset ", Text.decimal e.extent.offset, ", length ",
      Text.decimal e.extent.length, "\n",
    "Create: tick ", Text.decimal e.createdTick, "\n",
    "Modify: tick ", Text.decimal e.modifiedTick, "\n"]

/-- Describes an entry; without a word, the volume. -/
def stat : Handler := fun s args =>
  match args with
  | [] => usageReport s.volume.usage
  | target :: _ =>
    match s.volume.stat (s.resolve target) with
    | .ok e => entryReport e
    | .error e => [.fail (.volume target e)]

end RamShell.Shell.Command
