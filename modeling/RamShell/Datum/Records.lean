import RamShell.Datum.Basic
import RamShell.Shell.Settings
import RamShell.Volume.Query
/-!
# RamShell.Datum.Records

The records of the volume and the shell as data, in both directions.
-/

namespace RamShell

namespace Volume

/-- A growth policy as data: its name. -/
def Growth.toDatum (g : Growth) : Datum := .text g.label

/-- The growth policy that data name. -/
def Growth.ofDatum? : Datum → Option Growth := Datum.variant? [relocate, inPlace] label

/-- A kind as data: its name. -/
def Kind.toDatum (k : Kind) : Datum := .text k.label

/-- The kind that data name. -/
def Kind.ofDatum? : Datum → Option Kind := Datum.variant? [file, directory, unknown] label

/-- An error as data: its name. -/
def Error.toDatum (e : Error) : Datum := .text e.label

/-- The error that data name. -/
def Error.ofDatum? : Datum → Option Error := Datum.variant? all label

/-- Limits as data. -/
def Limits.toDatum (l : Limits) : Datum :=
  .record
    [("max_entries", .ofNat l.maxEntries), ("max_file_size", .ofNat l.maxFileSize),
      ("arena_capacity", .ofNat l.arenaCapacity), ("max_path_len", .ofNat l.maxPathLength),
      ("growth", l.growth.toDatum)]

/-- The limits that data hold. -/
def Limits.ofDatum? (d : Datum) : Option Limits := do
  match ← d.fields? ["max_entries", "max_file_size", "arena_capacity", "max_path_len", "growth"] with
  | [entries, fileSize, arena, pathLength, growth] =>
    return ⟨← entries.size?, ← fileSize.size?, ← arena.size?, ← pathLength.size?,
      ← Growth.ofDatum? growth⟩
  | _ => none

/-- Usage figures as data. -/
def Usage.toDatum (u : Usage) : Datum :=
  .record
    [("entry_count", .ofNat u.entries), ("file_count", .ofNat u.files),
      ("directory_count", .ofNat u.directories), ("bytes_used", .ofNat u.bytesUsed),
      ("bytes_free", .ofNat u.bytesFree)]

/-- The usage figures that data hold. -/
def Usage.ofDatum? (d : Datum) : Option Usage := do
  match ← d.fields? ["entry_count", "file_count", "directory_count", "bytes_used", "bytes_free"] with
  | [entries, files, directories, used, free] =>
    return ⟨← entries.size?, ← files.size?, ← directories.size?, ← used.size?, ← free.size?⟩
  | _ => none

/-- An extent as data. -/
def Extent.toDatum (x : Extent) : Datum :=
  .record [("offset", .ofNat x.offset), ("length", .ofNat x.length)]

/-- The extent that data hold. -/
def Extent.ofDatum? (d : Datum) : Option Extent := do
  match ← d.fields? ["offset", "length"] with
  | [offset, length] => return ⟨← offset.size?, ← length.size?⟩
  | _ => none

/-- Permissions as data: the stored number. -/
def Permissions.toDatum (p : Permissions) : Datum := .ofNat p.bits.toNat

/-- The permissions that data hold. -/
def Permissions.ofDatum? (d : Datum) : Option Permissions :=
  (d.nat? 0x10000).map fun n => ⟨UInt16.ofNat n⟩

/-- An entry as data. -/
def Entry.toDatum (e : Entry) : Datum :=
  .record
    [("path", .text e.path), ("size", .ofNat e.size), ("extent", e.extent.toDatum),
      ("is_directory", .bool e.isDirectory), ("created_tick", .ofNat e.createdTick),
      ("modified_tick", .ofNat e.modifiedTick), ("permissions", e.permissions.toDatum)]

/-- The entry that data hold. -/
def Entry.ofDatum? (d : Datum) : Option Entry := do
  match ← d.fields? ["path", "size", "extent", "is_directory", "created_tick", "modified_tick",
      "permissions"] with
  | [path, size, extent, isDirectory, created, modified, permissions] =>
    return ⟨← path.text?, ← size.size?, ← Extent.ofDatum? extent, ← isDirectory.bool?,
      ← created.size?, ← modified.size?, ← Permissions.ofDatum? permissions⟩
  | _ => none

end Volume

namespace Shell

/-- Settings as data. -/
def Settings.toDatum (s : Settings) : Datum :=
  .record
    [("hostname", .text s.hostname), ("user", .text s.user), ("user_home", .text s.userHome),
      ("root_home", .text s.rootHome), ("root_passwords", .list (s.rootPasswords.map .text)),
      ("history_size", .ofNat s.historySize), ("prompt_width", .ofNat s.promptWidth)]

/-- The settings that data hold. -/
def Settings.ofDatum? (d : Datum) : Option Settings := do
  match ← d.fields? ["hostname", "user", "user_home", "root_home", "root_passwords", "history_size",
      "prompt_width"] with
  | [hostname, user, userHome, rootHome, passwords, historySize, promptWidth] =>
    return ⟨← hostname.text?, ← user.text?, ← userHome.text?, ← rootHome.text?, ← passwords.texts?,
      ← historySize.size?, ← promptWidth.size?⟩
  | _ => none

end Shell

end RamShell
