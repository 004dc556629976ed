import RamShell.Volume.Entry
import RamShell.Volume.Error
/-!
# RamShell.Volume.Table

The entry table: a bounded list of entries, each found by its path.

Design points:

* The order of the list is the storage order, which listings show. A new entry goes to the end; a
  deleted one is replaced by the last, so deleting moves at most one other entry.
* Lookups compare the text of a path and take the first match. The table knows nothing of
  canonical paths; whoever calls it decides on the spelling.
* An operation that can fail answers beside the table it leaves, so what a failure leaves is
  something to be proved.
-/

namespace RamShell.Volume

/-- A bounded list of entries. -/
structure Table where
  /-- The entries in storage order. -/
  entries : List Entry
  /-- The greatest number of entries. -/
  capacity : Nat
  /-- The greatest length of a path, in bytes. -/
  maxPathLength : Nat
  deriving DecidableEq, Repr

namespace Table

/-- A table without entries. -/
def empty (capacity maxPathLength : Nat) : Table := ⟨[], capacity, maxPathLength⟩

/-- The number of entries. -/
def size (t : Table) : Nat := t.entries.length

/-- Whether there is no entry. -/
def isEmpty (t : Table) : Bool := t.entries.isEmpty

/-- Whether there is no room for another entry. -/
def isFull (t : Table) : Bool := decide (t.capacity ≤ t.size)

/-- The entry with this path. -/
def find? (t : Table) (path : String) : Option Entry :=
  t.entries.find? (·.path == path)

/-- Whether an entry has this path. -/
def contains (t : Table) (path : String) : Bool := (t.find? path).isSome

/-- What this path names. -/
def kindAt (t : Table) (path : String) : Kind :=
  ((t.find? path).map Entry.kind).getD .unknown

/-- The permissions of the entry with this path as text. -/
def permissionsAt (t : Table) (path : String) : String :=
  ((t.find? path).map Entry.permissionText).getD Permissions.absent

/-- Adds an empty entry at the end, and answers with it. `offset` is where its extent starts. -/
def create (t : Table) (path : String) (isDirectory : Bool) (offset tick : Nat) :
    Except Error Entry × Table :=
  if path.isEmpty then (.error .invalidPath, t)
  else if t.maxPathLength < path.utf8ByteSize then (.error .pathTooLong, t)
  else if t.contains path then (.error .duplicateExists, t)
  else if t.isFull then (.error .tableFull, t)
  else
    let entry := Entry.empty path isDirectory offset tick
    (.ok entry, { t with entries := t.entries ++ [entry] })

/-- Changes the first entry that satisfies `p`. -/
def modifyFirst (p : Entry → Bool) (f : Entry → Entry) : List Entry → List Entry
  | [] => []
  | e :: es => if p e then f e :: es else e :: modifyFirst p f es

/-- Changes the entry with this path, if there is one. -/
def update (t : Table) (path : String) (f : Entry → Entry) : Table :=
  { t with entries := modifyFirst (·.path == path) f t.entries }

/-- A list without the element at `i`, whose place the last element takes. -/
def removeAt (entries : List Entry) (i : Nat) : List Entry :=
  match entries.getLast? with
  | none => []
  | some last => (entries.set i last).dropLast

/-- Removes the entry with this path, and answers with it. -/
def delete (t : Table) (path : String) : Except Error Entry × Table :=
  if path = Path.root then (.error .cannotDeleteRoot, t)
  else
    match t.find? path, t.entries.findIdx? (·.path == path) with
    | some entry, some i => (.ok entry, { t with entries := removeAt t.entries i })
    | _, _ => (.error .notFound, t)

/-- Removes every entry. -/
def clear (t : Table) : Table := { t with entries := [] }

/-! ### Lookup after each operation -/

@[simp] theorem find?_empty (capacity maxPathLength : Nat) (path : String) :
    (empty capacity maxPathLength).find? path = none := rfl

@[simp] theorem find?_clear (t : Table) (path : String) : t.clear.find? path = none := rfl

/-- What is found under a path has that path. -/
theorem path_of_find? {t : Table} {path : String} {e : Entry} (h : t.find? path = some e) :
    e.path = path := by
  simpa using List.find?_some h

theorem mem_of_find? {t : Table} {path : String} {e : Entry} (h : t.find? path = some e) :
    e ∈ t.entries :=
  List.mem_of_find?_eq_some h

end Table

end RamShell.Volume
