import RamShell.Text.Utf8
import RamShell.Volume.Entry
import RamShell.Volume.Error
/-!
# RamShell.Volume.Arena

The arena: one array of bytes that holds the content of every file, with a cursor.

```text
| welcome | readme | (left behind) | free                 |
0                                  used            capacity
```

Space is handed out by moving the cursor; nothing is given back short of a reset. Reading and
writing know nothing of the cursor or of extents: they look at the capacity alone, and a write
that runs past an extent changes what lies there.

An operation that can fail answers beside the arena it leaves.

A new arena is all zeros, so only the cells up to the last byte ever written are kept; `byteAt` is
the view in which the rest reads as zero.
-/

namespace RamShell.Volume

/-- An array of bytes with a cursor. -/
structure Arena where
  /-- The bytes up to the last one written; the others are zero. -/
  cells : Bytes
  /-- The number of bytes. -/
  capacity : Nat
  /-- The number of bytes handed out. -/
  used : Nat
  deriving DecidableEq, Repr

namespace Arena

/-- An arena of zeros, all of it free. -/
def zeroed (capacity : Nat) : Arena := ⟨[], capacity, 0⟩

/-- The number of bytes not handed out. -/
def free (a : Arena) : Nat := a.capacity - a.used

/-- Whether `length` bytes are free. -/
def hasRoom (a : Arena) (length : Nat) : Bool := decide (length ≤ a.free)

/-- The byte at an index. -/
def byteAt (a : Arena) (i : Nat) : UInt8 := a.cells.getD i 0

/-- Hands out the next `length` bytes. -/
def reserve (a : Arena) (length : Nat) : Except Error Extent × Arena :=
  if a.hasRoom length then (.ok ⟨a.used, length⟩, { a with used := a.used + length })
  else (.error .outOfSpace, a)

/-- A run of `length` cells from `offset` on, filled up with zeros. -/
def window (cells : Bytes) (offset length : Nat) : Bytes :=
  let found := (cells.drop offset).take length
  found ++ List.replicate (length - found.length) 0

/-- Cells with `bytes` laid over them from `offset` on. -/
def overlay (cells : Bytes) (offset : Nat) (bytes : Bytes) : Bytes :=
  if bytes.isEmpty then cells
  else window cells 0 offset ++ bytes ++ cells.drop (offset + bytes.length)

/-- Writes bytes from `offset` on. Only the capacity is checked. -/
def write (a : Arena) (offset : Nat) (bytes : Bytes) : Except Error Unit × Arena :=
  if a.capacity < offset + bytes.length then (.error .outOfSpace, a)
  else (.ok (), { a with cells := overlay a.cells offset bytes })

/-- The `length` bytes from `offset` on, cut off at the end of the arena. -/
def span (a : Arena) (offset length : Nat) : Bytes :=
  window a.cells offset (min length (a.capacity - offset))

/-- Reads `length` bytes from `offset` on into the front of a buffer. Returns how many were read,
as many as arena and buffer have, and the buffer. -/
def read (a : Arena) (offset length : Nat) (buffer : Bytes) : Nat × Bytes :=
  let bytes := a.span offset (min length buffer.length)
  (bytes.length, bytes ++ buffer.drop bytes.length)

/-- Takes everything back and zeroes the bytes. -/
def reset (a : Arena) : Arena := zeroed a.capacity

/-! ### The byte view -/

@[simp] theorem length_window (cells : Bytes) (offset length : Nat) :
    (window cells offset length).length = length := by
  simp only [window, List.length_append, List.length_take, List.length_replicate]
  omega

/-- A window shows the cells it covers, and zeros past the last one. -/
theorem getD_window (cells : Bytes) (offset length i : Nat) :
    (window cells offset length).getD i 0 = if i < length then cells.getD (offset + i) 0 else 0 := by
  simp only [window, List.getD_eq_getElem?_getD, List.getElem?_append, List.getElem?_take,
    List.getElem?_drop, List.length_take, List.length_drop, List.getElem?_replicate]
  by_cases hi : i < length
  · by_cases hc : offset + i < cells.length
    · rw [if_pos (by omega), if_pos hi, if_pos hi]
    · rw [if_neg (by omega), if_pos (by omega), if_pos hi, List.getElem?_eq_none (by omega)]
      rfl
  · rw [if_neg (by omega), if_neg (by omega), if_neg hi]
    rfl

/-- Writing changes exactly the bytes it covers. -/
theorem getD_overlay (cells : Bytes) (offset : Nat) (bytes : Bytes) (i : Nat) :
    (overlay cells offset bytes).getD i 0 =
      if offset ≤ i ∧ i < offset + bytes.length then bytes.getD (i - offset) 0
      else cells.getD i 0 := by
  unfold overlay
  split
  · next h =>
    have : bytes.length = 0 := by simpa using h
    rw [if_neg (by omega)]
  · rw [List.append_assoc, List.getD_eq_getElem?_getD, List.getElem?_append, length_window]
    split
    · next h =>
      rw [if_neg (by omega), ← List.getD_eq_getElem?_getD, getD_window, if_pos h, Nat.zero_add]
    · rw [List.getElem?_append]
      split
      · rw [if_pos (by omega), List.getD_eq_getElem?_getD]
      · rw [if_neg (by omega), List.getElem?_drop, List.getD_eq_getElem?_getD]
        congr 2
        omega

@[simp] theorem byteAt_zeroed (capacity i : Nat) : (zeroed capacity).byteAt i = 0 := by
  simp [byteAt, zeroed]

end Arena

end RamShell.Volume
