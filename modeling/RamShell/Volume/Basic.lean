import RamShell.Volume.Arena
import RamShell.Volume.Limits
import RamShell.Volume.Listing
/-!
# RamShell.Volume.Basic

A volume: an entry table over an arena, with a clock.

Design points:

* The clock counts changes. Each change to an entry takes the next tick, and a change that is
  refused takes none.
* Every path that comes from outside is brought to canonical form before the table sees it
  (`keyOf`). The empty path has none, so it never names an entry.
* The table always has room for the root, whatever the limits say.
-/

namespace RamShell

/-- A file system held in memory. -/
structure Volume where
  /-- The limits that the volume was made with. -/
  limits : Volume.Limits
  /-- The entries. -/
  table : Volume.Table
  /-- The content of the files. -/
  arena : Volume.Arena
  /-- The number of changes made so far. -/
  tick : Nat
  deriving DecidableEq, Repr

namespace Volume

/-- What a change answers, together with the volume it leaves. -/
abbrev Result (α : Type) := Except Error α × Volume

/-- Puts the root directory into an empty table. -/
def withRoot (v : Volume) : Volume :=
  let tick := v.tick + 1
  { v with table := (v.table.create Path.root true v.arena.used tick).2, tick := tick }

/-- A volume that holds the root directory and nothing else. -/
def ofLimits (limits : Limits) : Volume :=
  withRoot
    { limits := limits
      table := .empty (max limits.maxEntries 1) (max limits.maxPathLength 1)
      arena := .zeroed limits.arenaCapacity
      tick := 0 }

/-- Drops all entries and content. This is the one way to get arena space back. -/
def reset (v : Volume) : Volume :=
  withRoot { v with table := v.table.clear, arena := v.arena.reset, tick := 0 }

/-- The canonical form of a path from outside. -/
def keyOf (path : String) : Except Error String :=
  if path.isEmpty then .error .invalidPath else .ok (Path.normalize path)

/-- The entry that a path from outside names. -/
def find? (v : Volume) (path : String) : Option Entry :=
  match keyOf path with
  | .ok c => v.table.find? c
  | .error _ => none

/-- The entries directly below a directory, in storage order. -/
def children (v : Volume) (dir : String) : List Entry :=
  v.table.children (Path.childStem dir)

@[simp] theorem keyOf_empty : keyOf "" = .error .invalidPath := rfl

@[simp] theorem find?_empty (v : Volume) : v.find? "" = none := rfl

end Volume

end RamShell
