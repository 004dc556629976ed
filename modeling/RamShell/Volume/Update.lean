import RamShell.Volume.Query
/-!
# RamShell.Volume.Update

The changes that can be made to a volume. Each answers whether it succeeded, and what the volume
is then; a change that fails half way would show it.

Design points:

* `write` decides in this order: the path, the size limit, and what the path names. A new file
  needs room in the arena first, then a slot in the table.
* An existing file keeps its extent as long as the content fits. Beyond that the growth policy
  decides between a new extent and writing on past the old one.
* Every step that can fail says so, also where the steps before it leave nothing to fail. `fill`,
  `settle` and `amend` are what is left of a change once the volume has been touched.
-/

namespace RamShell.Volume

/-- Makes an empty file or directory. -/
def create (v : Volume) (path : String) (isDirectory : Bool) : Result Unit :=
  match keyOf path with
  | .error e => (.error e, v)
  | .ok c =>
    match v.table.create c isDirectory v.arena.used (v.tick + 1) with
    | (.error e, table) => (.error e, { v with table := table })
    | (.ok _, table) => (.ok (), { v with table := table, tick := v.tick + 1 })

/-- The paths from the first name down to the whole list of names. -/
def chain (names : List Path.Name) : List String :=
  (List.range names.length).map fun i => Path.ofNames (names.take (i + 1))

/-- Makes those of the listed directories that do not exist, in order, up to the first failure. -/
def createMissing (v : Volume) : List String → Result Unit
  | [] => (.ok (), v)
  | dir :: dirs =>
    match v.table.find? dir with
    | some e => if e.isDirectory then v.createMissing dirs else (.error .notADirectory, v)
    | none =>
      match v.create dir true with
      | (.ok (), v) => v.createMissing dirs
      | (.error e, v) => (.error e, v)

/-- Makes a directory and whatever is missing on the way to it. -/
def createDirs (v : Volume) (path : String) : Result Unit :=
  match keyOf path with
  | .error e => (.error e, v)
  | .ok c => v.createMissing (chain (Path.names c))

/-- The extent that content of `size` bytes goes to, for a file that has `extent`. -/
def placeFor (v : Volume) (extent : Extent) (size : Nat) : Result Extent :=
  if extent.fits size then (.ok extent, v)
  else
    match v.limits.growth with
    | .inPlace => (.ok ⟨extent.offset, size⟩, v)
    | .relocate =>
      let (fresh, arena) := v.arena.reserve size
      (fresh, { v with arena := arena })

/-- Takes the next tick and changes the entry at a canonical path. The tick is spent even if there
is no such entry. -/
def amend (v : Volume) (c : String) (record : Nat → Entry → Entry) : Result Unit :=
  let tick := v.tick + 1
  match v.table.find? c with
  | none => (.error .notFound, { v with tick := tick })
  | some _ => (.ok (), { v with table := v.table.update c (record tick), tick := tick })

/-- Puts content into its place in the arena and records it in the entry at a canonical path. -/
def settle (v : Volume) (c : String) (place : Extent) (bytes : Bytes) : Result Unit :=
  match v.arena.write place.offset bytes with
  | (.error e, arena) => (.error e, { v with arena := arena })
  | (.ok (), arena) =>
    amend { v with arena := arena } c fun tick e =>
      { e with size := bytes.length, extent := place, modifiedTick := tick }

/-- Replaces the content of the file at a canonical path. -/
def overwrite (v : Volume) (c : String) (extent : Extent) (bytes : Bytes) : Result Unit :=
  match v.placeFor extent bytes.length with
  | (.error e, v) => (.error e, v)
  | (.ok place, v) => v.settle c place bytes

/-- Reserves an extent for the new entry at a canonical path and puts its content there. The entry
keeps the tick it was made with. -/
def fill (v : Volume) (c : String) (bytes : Bytes) : Result Unit :=
  match v.arena.reserve bytes.length with
  | (.error e, arena) => (.error e, { v with arena := arena })
  | (.ok extent, arena) =>
    match arena.write extent.offset bytes with
    | (.error e, arena) => (.error e, { v with arena := arena })
    | (.ok (), arena) =>
      let record := fun e : Entry => { e with size := bytes.length, extent := extent }
      (.ok (), { v with table := v.table.update c record, arena := arena })

/-- Makes a file with content at a canonical path that names nothing. -/
def writeFresh (v : Volume) (c : String) (bytes : Bytes) : Result Unit :=
  if v.arena.hasRoom bytes.length then
    match v.table.create c false v.arena.used (v.tick + 1) with
    | (.error e, table) => (.error e, { v with table := table })
    | (.ok _, table) => fill { v with table := table, tick := v.tick + 1 } c bytes
  else (.error .outOfSpace, v)

/-- Replaces the content of a file, making the file if there is none. -/
def write (v : Volume) (path : String) (bytes : Bytes) : Result Unit :=
  match keyOf path with
  | .error e => (.error e, v)
  | .ok c =>
    if v.limits.maxFileSize < bytes.length then (.error .tooLarge, v)
    else
      match v.table.find? c with
      | none => v.writeFresh c bytes
      | some e =>
        if e.isDirectory then (.error .cannotWriteDirectory, v)
        else v.overwrite c e.extent bytes

/-- Removes a file or an empty directory. Its arena space stays handed out. -/
def delete (v : Volume) (path : String) : Result Unit :=
  match keyOf path with
  | .error e => (.error e, v)
  | .ok c =>
    if c = Path.root then (.error .cannotDeleteRoot, v)
    else
      match v.table.find? c with
      | none => (.error .notFound, v)
      | some e =>
        if e.isDirectory && v.table.hasBelow (Path.childStem c) then
          (.error .directoryNotEmpty, v)
        else
          match v.table.delete c with
          | (.error e, table) => (.error e, { v with table := table })
          | (.ok _, table) => (.ok (), { v with table := table })

/-- Replaces the permission bits of an entry. -/
def setPermissions (v : Volume) (path : String) (mode : UInt16) : Result Unit :=
  match keyOf path with
  | .error e => (.error e, v)
  | .ok c =>
    if v.table.contains c then
      v.amend c fun tick e => { e with permissions := .ofMode mode, modifiedTick := tick }
    else (.error .notFound, v)

end RamShell.Volume
