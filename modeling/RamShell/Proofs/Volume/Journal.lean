import Mathlib.Data.List.DropRight
import Mathlib.Data.List.Intervals
import RamShell.Proofs.Log
import RamShell.Proofs.Volume.Span
/-!
# RamShell.Proofs.Volume.Journal

The arena against the log of what was done to it. The log of a run has every operation with its
answer, and what the arena holds is read off its part since the last reset: the extents that were
handed out (`granted`), and for each index the byte that was last written there (`lastWritten`).
`Records` says that cursor and bytes are what the log tells.

Handing out and writing know nothing of one another. A step therefore adds to the log a grant, or a
write, or something that is neither (`Records.grant`, `Records.write`, `Records.idle`), and the two
readings of the log are compared with cursor and bytes each on its own.

`Records.apply` is the step. The main statement is `arena_is_byte_array`.
-/

namespace RamShell.Volume

/-! ### Extents in a row -/

/-- Extents that lie one behind the other, from `start` to `stop` and with nothing between them. -/
def Extent.Tiles (start : Nat) : List Extent → Nat → Prop
  | [], stop => start = stop
  | x :: xs, stop => x.offset = start ∧ Tiles x.stop xs stop

namespace Extent.Tiles

variable {start stop : Nat} {xs : List Extent}

/-- One more extent, where the others stop. -/
theorem concat (h : Tiles start xs stop) (length : Nat) :
    Tiles start (xs ++ [⟨stop, length⟩]) (stop + length) := by
  induction xs generalizing start with
  | nil => exact ⟨h.symm, rfl⟩
  | cons x xs ih => exact ⟨h.1, ih h.2⟩

theorem start_le (h : Tiles start xs stop) : start ≤ stop := by
  induction xs generalizing start with
  | nil => exact Nat.le_of_eq h
  | cons x xs ih =>
    have hrest := ih h.2
    have hstart := h.1
    unfold Extent.stop at hrest
    omega

/-- Extents in a row cover what is between their ends, and nothing else. -/
theorem covers (h : Tiles start xs stop) (i : Nat) :
    (start ≤ i ∧ i < stop) ↔ ∃ x ∈ xs, x.offset ≤ i ∧ i < x.stop := by
  induction xs generalizing start with
  | nil =>
    have hempty : start = stop := h
    simp only [List.not_mem_nil, false_and, exists_false, iff_false]
    omega
  | cons x xs ih =>
    obtain ⟨hstart, hrest⟩ := h
    have hle := hrest.start_le
    have hx : x.offset ≤ x.stop := Nat.le_add_right _ _
    rw [List.exists_mem_cons_iff, ← ih hrest]
    omega

/-- Of extents in a row each one stops before the later ones start. -/
theorem pairwise (h : Tiles start xs stop) : xs.Pairwise fun x y => x.stop ≤ y.offset := by
  -- No extent starts in front of the row, which is what the first one needs of the others.
  have hfrom : ∀ {start : Nat} {xs : List Extent}, Tiles start xs stop →
      ∀ y ∈ xs, start ≤ y.offset := by
    intro start xs h
    induction xs generalizing start with
    | nil => exact fun y hy => absurd hy List.not_mem_nil
    | cons x xs ih =>
      intro y hy
      rcases List.mem_cons.mp hy with rfl | hy
      · exact Nat.le_of_eq h.1.symm
      · have hlater := ih h.2 y hy
        have hstart := h.1
        unfold Extent.stop at hlater
        omega
  induction xs generalizing start with
  | nil => exact List.Pairwise.nil
  | cons x xs ih => exact List.Pairwise.cons (hfrom h.2) (ih h.2)

end Extent.Tiles

namespace Arena

open Extent (Tiles)

/-! ### Operations -/

/-- An operation on an arena. -/
inductive Operation
  /-- Hand out the next bytes. -/
  | reserve (length : Nat)
  /-- Write bytes. -/
  | write (offset : Nat) (bytes : Bytes)
  /-- Read into the front of a buffer. -/
  | read (offset length : Nat) (buffer : Bytes)
  /-- Look at a run of bytes. -/
  | span (offset length : Nat)
  /-- Take everything back. -/
  | reset
  deriving DecidableEq, Repr

/-- What an operation answers. -/
inductive Answer
  /-- It failed. -/
  | refused (err : Error)
  /-- It handed out an extent. -/
  | granted (extent : Extent)
  /-- It wrote its bytes. -/
  | written
  /-- It put `count` bytes into a buffer. -/
  | copied (count : Nat) (buffer : Bytes)
  /-- It showed bytes. -/
  | shown (bytes : Bytes)
  /-- It took everything back. -/
  | cleared
  deriving DecidableEq, Repr

/-- The answer to an operation that can fail, beside the arena it leaves. -/
def Answer.ofResult {α : Type} (told : α → Answer) : Except Error α × Arena → Answer × Arena
  | (.ok x, a) => (told x, a)
  | (.error err, a) => (.refused err, a)

/-- Carries out an operation. -/
def apply (a : Arena) : Operation → Answer × Arena
  | .reserve length => Answer.ofResult .granted (a.reserve length)
  | .write offset bytes => Answer.ofResult (fun _ => .written) (a.write offset bytes)
  | .read offset length buffer =>
    let (count, buffer) := a.read offset length buffer
    (.copied count buffer, a)
  | .span offset length => (.shown (a.span offset length), a)
  | .reset => (.cleared, a.reset)

/-! ### What a log tells -/

/-- Operations with their answers, oldest first. -/
abbrev Log := List (Operation × Answer)

/-- The part of a log behind the last reset. -/
def sinceReset (log : Log) : Log := log.rtakeWhile fun entry => entry.1 ≠ .reset

/-- The extent that an operation handed out. -/
def grantOf : Operation × Answer → Option Extent
  | (_, .granted x) => some x
  | _ => none

/-- The byte that an operation wrote to an index. -/
def byteOf (i : Nat) : Operation × Answer → Option UInt8
  | (.write offset bytes, .written) => if offset ≤ i then bytes[i - offset]? else none
  | _ => none

/-- The extents that were handed out, oldest first. -/
def granted (log : Log) : List Extent := log.filterMap grantOf

/-- The byte that was last written to an index, or zero. -/
def lastWritten (log : Log) (i : Nat) : UInt8 := (log.reverse.findSome? (byteOf i)).getD 0

/-- The bytes last written to `length` indices from `offset` on, as far as there are such indices. -/
def lastWrittenFrom (log : Log) (capacity offset length : Nat) : Bytes :=
  ((List.Ico offset (offset + length)).filter (· < capacity)).map (lastWritten log)

section Log

variable {log : Log} {entry : Operation × Answer}

theorem sinceReset_concat (h : entry.1 ≠ .reset) :
    sinceReset (log ++ [entry]) = sinceReset log ++ [entry] :=
  List.rtakeWhile_concat_pos _ _ _ (by simpa using h)

theorem sinceReset_concat_reset (h : entry.1 = .reset) : sinceReset (log ++ [entry]) = [] :=
  List.rtakeWhile_concat_neg _ _ _ (by simpa using h)

theorem granted_concat (log : Log) (entry : Operation × Answer) :
    granted (log ++ [entry]) = granted log ++ (grantOf entry).toList := by
  rw [granted, List.filterMap_append, List.filterMap_cons, List.filterMap_nil]
  cases grantOf entry <;> rfl

theorem lastWritten_concat (log : Log) (entry : Operation × Answer) (i : Nat) :
    lastWritten (log ++ [entry]) i = (byteOf i entry).getD (lastWritten log i) := by
  rw [lastWritten, List.reverse_append, List.reverse_singleton, List.singleton_append,
    List.findSome?_cons]
  cases byteOf i entry <;> rfl

/-- A write that took place is found at the indices it covers, and nowhere else. -/
theorem byteOf_written (offset : Nat) (bytes : Bytes) (i : Nat) (other : UInt8) :
    (byteOf i (.write offset bytes, .written)).getD other =
      if offset ≤ i ∧ i < offset + bytes.length then bytes.getD (i - offset) 0 else other := by
  simp only [byteOf]
  by_cases hbelow : offset ≤ i
  · rw [if_pos hbelow]
    by_cases hcovered : i - offset < bytes.length
    · rw [if_pos (by omega), List.getD_eq_getElem?_getD, List.getElem?_eq_getElem hcovered]
      rfl
    · rw [if_neg (by omega), List.getElem?_eq_none (by omega)]
      rfl
  · rw [if_neg hbelow, if_neg (by omega)]
    rfl

theorem length_lastWrittenFrom (log : Log) (capacity offset length : Nat) :
    (lastWrittenFrom log capacity offset length).length = min length (capacity - offset) := by
  rw [lastWrittenFrom, List.length_map, List.Ico.filter_lt, List.Ico.length]
  omega

theorem getD_lastWrittenFrom (log : Log) {capacity offset length i : Nat}
    (hi : i < min length (capacity - offset)) :
    (lastWrittenFrom log capacity offset length).getD i 0 = lastWritten log (offset + i) := by
  have hcount : i < min (offset + length) capacity - offset := by omega
  rw [lastWrittenFrom, List.Ico.filter_lt, List.Ico, List.getD_eq_getElem?_getD, List.getElem?_map,
    List.getElem?_range' hcount, Nat.one_mul]
  rfl

end Log

/-! ### The arena that a log tells of -/

/-- An arena of a given capacity that is as its log tells: the cursor is where the extents handed out
stop, and each byte is the one last written. -/
structure Records (capacity : Nat) (log : Log) (a : Arena) : Prop where
  /-- The number of bytes is the one given. -/
  capacity_eq : a.capacity = capacity
  /-- No more is handed out than there is. -/
  used_le : a.used ≤ capacity
  /-- No byte past the end is kept. -/
  cells_le : a.cells.length ≤ capacity
  /-- What was handed out ends at the cursor. -/
  tiles : Tiles 0 (granted (sinceReset log)) a.used
  /-- Each byte is the one last written. -/
  byteAt_eq : ∀ i, a.byteAt i = lastWritten (sinceReset log) i

namespace Records

variable {capacity : Nat} {log : Log} {a : Arena} {entry : Operation × Answer}

theorem zeroed (capacity : Nat) : Records capacity [] (.zeroed capacity) where
  capacity_eq := rfl
  used_le := Nat.zero_le _
  cells_le := Nat.zero_le _
  tiles := rfl
  byteAt_eq := byteAt_zeroed capacity

/-- What hands out nothing and writes nothing leaves the arena as the log tells. -/
theorem idle (h : Records capacity log a) (hreset : entry.1 ≠ .reset)
    (hgrant : grantOf entry = none) (hbyte : ∀ i, byteOf i entry = none) :
    Records capacity (log ++ [entry]) a where
  capacity_eq := h.capacity_eq
  used_le := h.used_le
  cells_le := h.cells_le
  tiles := by
    rw [sinceReset_concat hreset, granted_concat, hgrant, Option.toList_none, List.append_nil]
    exact h.tiles
  byteAt_eq i := by
    rw [sinceReset_concat hreset, lastWritten_concat, hbyte, Option.getD_none]
    exact h.byteAt_eq i

/-- Handing out moves the cursor to the end of the new extent. -/
theorem grant (h : Records capacity log a) {length : Nat} (hroom : length ≤ a.free) :
    Records capacity (log ++ [(.reserve length, .granted ⟨a.used, length⟩)])
      (a.advanced length) where
  capacity_eq := h.capacity_eq
  used_le := by
    have hused := h.used_le
    rw [free, h.capacity_eq] at hroom
    rw [advanced_used]
    omega
  cells_le := h.cells_le
  tiles := by
    rw [sinceReset_concat (by simp), granted_concat]
    exact h.tiles.concat length
  byteAt_eq i := by
    rw [sinceReset_concat (by simp), lastWritten_concat]
    exact h.byteAt_eq i

/-- A write is the last one at the indices it covers. -/
theorem write (h : Records capacity log a) {offset : Nat} {bytes : Bytes}
    (hroom : offset + bytes.length ≤ a.capacity) :
    Records capacity (log ++ [(.write offset bytes, .written)]) (a.written offset bytes) where
  capacity_eq := h.capacity_eq
  used_le := h.used_le
  cells_le := by
    have hcells := h.cells_le
    rw [h.capacity_eq] at hroom
    simp only [written, overlay]
    split
    · exact hcells
    · simp only [List.length_append, length_window, List.length_drop]
      omega
  tiles := by
    have hnone : grantOf (.write offset bytes, .written) = none := rfl
    rw [sinceReset_concat (by simp), granted_concat, hnone, Option.toList_none, List.append_nil]
    exact h.tiles
  byteAt_eq i := by
    rw [sinceReset_concat (by simp), lastWritten_concat, byteOf_written, byteAt_written,
      h.byteAt_eq]

/-- Behind a reset nothing is handed out and nothing is written. -/
theorem cleared (h : Records capacity log a) :
    Records capacity (log ++ [(.reset, .cleared)]) a.reset := by
  rw [reset, h.capacity_eq]
  refine ⟨rfl, Nat.zero_le _, Nat.zero_le _, ?_, ?_⟩
  · rw [sinceReset_concat_reset rfl]
    rfl
  · rw [sinceReset_concat_reset rfl]
    exact byteAt_zeroed capacity

end Records

section Step

variable {capacity : Nat} {log : Log} {a : Arena}

/-- Reserving is refused if there is too little left, and otherwise moves the cursor. -/
theorem apply_reserve (a : Arena) (length : Nat) :
    a.apply (.reserve length) =
      if a.free < length then (.refused .outOfSpace, a)
      else (.granted ⟨a.used, length⟩, a.advanced length) := by
  split
  · next h => rw [apply, reserve_eq_error h, Answer.ofResult]
  · next h => rw [apply, reserve_eq_ok (Nat.le_of_not_lt h), Answer.ofResult]

/-- A write is refused if it runs past the end, wherever the cursor is. -/
theorem apply_write (a : Arena) (offset : Nat) (bytes : Bytes) :
    a.apply (.write offset bytes) =
      if a.capacity < offset + bytes.length then (.refused .outOfSpace, a)
      else (.written, a.written offset bytes) := by
  split
  · next h => rw [apply, write_eq_error h, Answer.ofResult]
  · next h => rw [apply, write_eq_ok (Nat.le_of_not_lt h), Answer.ofResult]

/-- Every operation leaves the arena as the log tells that has this operation, too. -/
theorem Records.apply (h : Records capacity log a) (op : Operation) :
    Records capacity (log ++ [(op, (a.apply op).1)]) (a.apply op).2 := by
  cases op with
  | reserve length =>
    rw [apply_reserve]
    split
    · exact h.idle (by simp) rfl fun i => rfl
    · next hroom => exact h.grant (Nat.le_of_not_lt hroom)
  | write offset bytes =>
    rw [apply_write]
    split
    · exact h.idle (by simp) rfl fun i => rfl
    · next hroom => exact h.write (Nat.le_of_not_lt hroom)
  | read offset length buffer => exact h.idle (by simp) rfl fun i => rfl
  | span offset length => exact h.idle (by simp) rfl fun i => rfl
  | reset => exact h.cleared

/-- A span shows the bytes last written. -/
theorem Records.span_eq (h : Records capacity log a) (offset length : Nat) :
    a.span offset length = lastWrittenFrom (sinceReset log) capacity offset length := by
  apply span_eq_of_byteAt
  · rw [length_lastWrittenFrom, h.capacity_eq]
  · intro i hi
    rw [length_lastWrittenFrom] at hi
    rw [h.byteAt_eq, getD_lastWrittenFrom _ hi]

end Step

/-! ### Every run -/

/-- An arena is an array of bytes with a cursor, whatever is done to it from the start on. No more is
handed out than there is, and the extents handed out since the last reset lie one behind the other
from the start to the cursor, so that they cover all of that and none covers a byte of another. Each
byte is the one last written there since the last reset, or zero.

Asking for space is refused if there is too little left, and then changes nothing. A write is refused
if it runs past the end, and then changes nothing; it never moves the cursor. A span has the bytes
last written to its indices, as far as the arena goes. A read puts as many of them into the front of
the buffer as the buffer takes, and leaves the rest of the buffer alone. -/
theorem arena_is_byte_array (capacity : Nat) (ops : List Operation) :
    let run := logged apply (zeroed capacity) ops
    let log := sinceReset run.1
    let a := run.2
    (a.capacity = capacity ∧ a.used ≤ capacity ∧ a.cells.length ≤ capacity) ∧
    (Tiles 0 (granted log) a.used ∧
      (granted log).Pairwise (fun x y => x.stop ≤ y.offset) ∧
      ∀ i, i < a.used ↔ ∃ x ∈ granted log, x.offset ≤ i ∧ i < x.stop) ∧
    (∀ i, a.byteAt i = lastWritten log i) ∧
    (∀ length, a.apply (.reserve length) =
      if capacity - a.used < length then (.refused .outOfSpace, a)
      else (.granted ⟨a.used, length⟩, { a with used := a.used + length })) ∧
    (∀ offset bytes,
      if capacity < offset + bytes.length then
        a.apply (.write offset bytes) = (.refused .outOfSpace, a)
      else ∃ cells, a.apply (.write offset bytes) = (.written, { a with cells := cells })) ∧
    ∀ offset length buffer,
      a.apply (.span offset length) = (.shown (lastWrittenFrom log capacity offset length), a) ∧
      let bytes := lastWrittenFrom log capacity offset (min length buffer.length)
      bytes.length = min (min length buffer.length) (capacity - offset) ∧
      a.apply (.read offset length buffer) =
        (.copied bytes.length (bytes ++ buffer.drop bytes.length), a) := by
  intro run log a
  have h : Records capacity run.1 a :=
    logged_induction (Records.zeroed capacity) (fun _ _ op h => h.apply op) ops
  refine ⟨⟨h.capacity_eq, h.used_le, h.cells_le⟩, ⟨h.tiles, h.tiles.pairwise, ?_⟩, h.byteAt_eq,
    ?_, ?_, ?_⟩
  · intro i
    rw [← h.tiles.covers i]
    simp
  · intro length
    rw [apply_reserve, free, ← h.capacity_eq]
    rfl
  · intro offset bytes
    rw [apply_write, ← h.capacity_eq]
    split
    · rfl
    · exact ⟨_, rfl⟩
  · intro offset length buffer
    refine ⟨?_, length_lastWrittenFrom .., ?_⟩
    · rw [apply, h.span_eq]
    · rw [apply, read, h.span_eq]

/-- A write that runs past its extent changes the one behind it, a write past the end changes nothing,
and both go when the arena is reset. -/
example :
    let before : List Operation := [.reserve 2, .reserve 3, .write 2 [1, 2, 3],
      .write 0 [9, 9, 9, 9], .write 6 [7, 7, 7], .reserve 4]
    let (log, a) := logged apply (zeroed 8) before
    granted (sinceReset log) = [⟨0, 2⟩, ⟨2, 3⟩] ∧ a.used = 5 ∧
      a.span 2 3 = [9, 9, 3] ∧ a.read 3 9 [0, 0, 0, 5] = (4, [9, 3, 0, 0]) ∧
      (logged apply a [.reset, .reserve 8]).2.span 2 3 = [0, 0, 0] := by
  decide +kernel

end Arena

end RamShell.Volume
