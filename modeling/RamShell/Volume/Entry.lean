import RamShell.Path
/-!
# RamShell.Volume.Entry

The record of one file or directory: where it is, where its content lies in the arena, when it
was made and changed, and its permission bits.
-/

namespace RamShell.Volume

/-- A region of the arena. -/
structure Extent where
  /-- Where the region starts. -/
  offset : Nat
  /-- How many bytes it has. -/
  length : Nat
  deriving DecidableEq, Repr

namespace Extent

/-- One past the last byte of a region. -/
def stop (x : Extent) : Nat := x.offset + x.length

/-- Whether content of `size` bytes stays inside a region. -/
def fits (x : Extent) (size : Nat) : Bool := decide (size ≤ x.length)

@[simp] theorem fits_iff (x : Extent) (size : Nat) : x.fits size = true ↔ size ≤ x.length := by
  simp [fits]

end Extent

/-- Permission bits: reading, writing and executing for owner, group and others. They are stored
and shown, and nothing checks them. -/
structure Permissions where
  /-- The stored bits. -/
  bits : UInt16
  deriving DecidableEq, Repr

namespace Permissions

/-- What a new entry gets: everything for the owner, reading and executing for all. -/
def standard : Permissions := ⟨0o755⟩

/-- Reading and writing for the owner alone. -/
def ownerOnly : Permissions := ⟨0o600⟩

/-- The nine permission bits of a stored number. -/
def mode (p : Permissions) : UInt16 := p.bits &&& 0o777

/-- Permissions that hold the nine bits of a number and nothing else. -/
def ofMode (mode : UInt16) : Permissions := ⟨mode &&& 0o777⟩

/-- The nine flags, highest bit first, each with its letter. -/
def flags : List (UInt16 × Char) :=
  [(0o400, 'r'), (0o200, 'w'), (0o100, 'x'), (0o040, 'r'), (0o020, 'w'), (0o010, 'x'),
    (0o004, 'r'), (0o002, 'w'), (0o001, 'x')]

/-- The letters of the bits that are set, with a dash for each that is not, after `d` for a
directory or a dash for a file. -/
def render (p : Permissions) (isDirectory : Bool) : String :=
  String.ofList <|
    (if isDirectory then 'd' else '-') ::
      flags.map fun (bit, letter) => if p.bits &&& bit != 0 then letter else '-'

/-- What is shown for a path that has no entry. -/
def absent : String := "----------"

end Permissions

/-- What a path names. -/
inductive Kind
  /-- A file. -/
  | file
  /-- A directory. -/
  | directory
  /-- Nothing that exists. -/
  | unknown
  deriving DecidableEq, Repr

namespace Kind

/-- The kind as shown to users. -/
def text : Kind → String
  | file => "file"
  | directory => "directory"
  | unknown => "unknown"

/-- The name of a kind in records. -/
def label : Kind → String
  | file => "File"
  | directory => "Directory"
  | unknown => "Unknown"

end Kind

/-- The record of a file or directory. -/
structure Entry where
  /-- The path, which is the only lasting name of an entry. -/
  path : String
  /-- Length of the content in bytes. -/
  size : Nat
  /-- The region of the arena reserved for the content. -/
  extent : Extent
  /-- Whether this is a directory. -/
  isDirectory : Bool
  /-- The tick at which the entry was made. -/
  createdTick : Nat
  /-- The tick of the last change to content or permissions. -/
  modifiedTick : Nat
  /-- The permission bits. -/
  permissions : Permissions
  deriving DecidableEq, Repr

namespace Entry

/-- An empty entry whose extent starts at `offset` and has no space. -/
def empty (path : String) (isDirectory : Bool) (offset tick : Nat) : Entry where
  path := path
  size := 0
  extent := ⟨offset, 0⟩
  isDirectory := isDirectory
  createdTick := tick
  modifiedTick := tick
  permissions := .standard

/-- Whether an entry is a file or a directory. -/
def kind (e : Entry) : Kind := if e.isDirectory then .directory else .file

/-- The last name of the path. -/
def name (e : Entry) : String := Path.baseName e.path

/-- The permission bits as text. -/
def permissionText (e : Entry) : String := e.permissions.render e.isDirectory

/-- The name in a listing: directories end in a slash. -/
def listingName (e : Entry) : String :=
  if e.isDirectory then e.name ++ "/" else e.name

@[simp] theorem empty_path (path : String) (isDirectory : Bool) (offset tick : Nat) :
    (empty path isDirectory offset tick).path = path := rfl

end Entry

end RamShell.Volume
