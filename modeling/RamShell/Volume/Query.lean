import RamShell.Volume.Basic
/-!
# RamShell.Volume.Query

What can be asked of a volume without changing it: content, records, listings, working
directories and usage figures.
-/

namespace RamShell.Volume

/-! ### Files -/

/-- Reads a file into the front of a buffer. Returns the number of bytes read, and the buffer. -/
def read (v : Volume) (path : String) (buffer : Bytes) : Except Error (Nat × Bytes) :=
  match v.find? path with
  | none => .error .notFound
  | some e =>
    if e.isDirectory then .error .isDirectory
    else .ok (v.arena.read e.extent.offset e.size buffer)

/-- The whole content of a file. -/
def readAll (v : Volume) (path : String) : Except Error Bytes :=
  match v.find? path with
  | none => .error .notFound
  | some e =>
    if e.isDirectory then .error .isDirectory
    else .ok (v.arena.span e.extent.offset e.size)

/-! ### Records -/

/-- Whether a path names an entry. -/
def contains (v : Volume) (path : String) : Bool := (v.find? path).isSome

/-- The content length of an entry, zero if there is none. -/
def sizeAt (v : Volume) (path : String) : Nat := ((v.find? path).map Entry.size).getD 0

/-- What a path names. -/
def kindAt (v : Volume) (path : String) : Kind :=
  ((v.find? path).map Entry.kind).getD .unknown

/-- The permissions of an entry as text. -/
def permissionsAt (v : Volume) (path : String) : String :=
  ((v.find? path).map Entry.permissionText).getD Permissions.absent

/-- The record of an entry. -/
def stat (v : Volume) (path : String) : Except Error Entry :=
  match v.find? path with
  | some e => .ok e
  | none => .error .notFound

/-! ### Directories -/

/-- The listing names of the entries directly below a directory, in storage order. -/
def list (v : Volume) (dir : String) : Except Error (List String) :=
  match keyOf dir with
  | .error e => .error e
  | .ok c =>
    match v.table.find? c with
    | none => .error .notFound
    | some e =>
      if e.isDirectory then .ok ((v.children c).map Entry.listingName)
      else .error .notADirectory

/-- Packs the listing of a directory into a buffer. Returns the length of the text, and the
buffer. -/
def listPacked (v : Volume) (dir : String) (buffer : Bytes) : Except Error (Nat × Bytes) :=
  (v.list dir).map (Listing.write · buffer)

/-- The working directory that `target` leads to from `cwd`. One step up, and staying, are always
granted. -/
def changeDirectory (v : Volume) (target cwd : String) : Except Error String :=
  if target = ".." then .ok (Path.up cwd)
  else if target = "." then .ok cwd
  else
    let path := Path.resolve target cwd
    match v.table.find? path with
    | none => .error .notFound
    | some e => if e.isDirectory then .ok path else .error .notADirectory

/-! ### Usage -/

/-- Usage figures. -/
structure Usage where
  /-- Entries, the root included. -/
  entries : Nat
  /-- Files. -/
  files : Nat
  /-- Directories, the root included. -/
  directories : Nat
  /-- Arena bytes handed out, those left behind included. -/
  bytesUsed : Nat
  /-- Arena bytes still free. -/
  bytesFree : Nat
  deriving DecidableEq, Repr

namespace Usage

/-- The size of the arena. -/
def capacity (u : Usage) : Nat := u.bytesUsed + u.bytesFree

/-- The used share of the arena in whole percent, rounded down; nothing of an empty arena is
used. -/
def percent (u : Usage) : Nat :=
  if u.capacity = 0 then 0 else u.bytesUsed * 100 / u.capacity

end Usage

/-- The usage figures of a volume. -/
def usage (v : Volume) : Usage :=
  let directories := v.table.entries.countP (·.isDirectory)
  { entries := v.table.size
    files := v.table.size - directories
    directories := directories
    bytesUsed := v.arena.used
    bytesFree := v.arena.free }

end RamShell.Volume
