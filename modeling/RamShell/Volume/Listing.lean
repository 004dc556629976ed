import RamShell.Text.Utf8
import RamShell.Volume.Table
/-!
# RamShell.Volume.Listing

Directories as a view of the entry table. No record holds the children of a directory: they are
the entries whose path goes on after the directory's *stem* (its path and a slash) with one more
name. Listings keep the storage order.

`Listing.write` packs a listing into a buffer of fixed size: names on lines of their own, with a
NUL in place of the last line end, as many as fit and none of them cut.
-/

namespace RamShell.Volume

/-- Whether an entry lies directly below the directory with this stem. -/
def Entry.isChild (stem : String) (e : Entry) : Bool :=
  match Path.below? stem e.path with
  | some rest => !rest.isEmpty && !rest.contains '/'
  | none => false

/-- Whether an entry lies anywhere below the directory with this stem. -/
def Entry.isBelow (stem : String) (e : Entry) : Bool :=
  match Path.below? stem e.path with
  | some rest => !rest.isEmpty
  | none => false

/-- The entries directly below the directory with this stem. -/
def Table.children (t : Table) (stem : String) : List Entry :=
  t.entries.filter (·.isChild stem)

/-- Whether any entry lies below the directory with this stem. -/
def Table.hasBelow (t : Table) (stem : String) : Bool :=
  t.entries.any (·.isBelow stem)

namespace Listing

/-- The length of a name in bytes without the slashes at its end. -/
def plainLength (name : String) : Nat :=
  (Text.encode (String.ofList (Text.dropTrailing Path.isSlash name.toList))).length

/-- The names that fit into `room` bytes. A name needs two bytes more than its plain length, for a
slash and a line end, and the first one without that much room ends the listing. -/
def fitting (room : Nat) : List String → List String
  | [] => []
  | name :: names =>
    if plainLength name + 2 ≤ room then
      name :: fitting (room - ((Text.encode name).length + 1)) names
    else []

/-- The bytes of names with a line end between each two. -/
def joined (names : List String) : Bytes :=
  List.intercalate [0x0A] (names.map Text.encode)

/-- Packs names into a buffer. Returns the length of the text before the NUL, and the buffer; an
empty buffer holds not even the NUL. -/
def write (names : List String) : Bytes → Nat × Bytes
  | [] => (0, [])
  | buffer =>
    let text := joined (fitting buffer.length names)
    (text.length, text ++ 0 :: buffer.drop (text.length + 1))

end Listing

end RamShell.Volume
