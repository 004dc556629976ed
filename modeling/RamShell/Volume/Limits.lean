/-!
# RamShell.Volume.Limits

What a volume is made with: its size limits and what happens to a file that outgrows the space it
was given.
-/

namespace RamShell.Volume

/-- What a write does with content that no longer fits the extent of its file. -/
inductive Growth
  /-- Reserve a new extent and leave the old one behind; its space is not used again. -/
  | relocate
  /-- Write past the end of the extent, over whatever follows it in the arena. -/
  | inPlace
  deriving DecidableEq, Repr

/-- The name of a growth policy in records. -/
def Growth.label : Growth → String
  | relocate => "Relocate"
  | inPlace => "InPlace"

/-- The limits of a volume. -/
structure Limits where
  /-- Greatest number of entries, the root included. -/
  maxEntries : Nat
  /-- Greatest content length of one file, in bytes. -/
  maxFileSize : Nat
  /-- Size of the arena, in bytes. -/
  arenaCapacity : Nat
  /-- Greatest length of a stored path, in bytes. -/
  maxPathLength : Nat
  /-- What happens to a file that outgrows its extent. -/
  growth : Growth
  deriving DecidableEq, Repr

/-- The standard limits: 256 entries of up to 16 KiB, an arena that holds all of them at full
size, and paths of up to 127 bytes. -/
def Limits.standard : Limits where
  maxEntries := 256
  maxFileSize := 16 * 1024
  arenaCapacity := 256 * (16 * 1024)
  maxPathLength := 127
  growth := .relocate

end RamShell.Volume
