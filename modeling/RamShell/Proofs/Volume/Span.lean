import RamShell.Volume.Arena
/-!
# RamShell.Proofs.Volume.Span

What is read from the arena after a write. A span is the bytes of the arena from an offset on, cut
off at the end of the arena, so two spans of equal bounds agree if the bytes between the bounds do.
With that, a write is read back where it went (`span_written`) and not seen where it did not reach
(`span_written_of_apart`).
-/

namespace RamShell.Volume

namespace Extent

/-- Two extents of which one ends before the other starts. -/
def Apart (x y : Extent) : Prop := x.stop ≤ y.offset ∨ y.stop ≤ x.offset

theorem Apart.symm {x y : Extent} (h : x.Apart y) : y.Apart x := Or.symm h

/-- Two extents that are apart have no index in common. -/
theorem Apart.not_both {x y : Extent} (h : x.Apart y) (i : Nat) :
    ¬ ((x.offset ≤ i ∧ i < x.offset + x.length) ∧ y.offset ≤ i ∧ i < y.offset + y.length) := by
  unfold Apart stop at h
  omega

end Extent

namespace Arena

variable {a : Arena} {offset : Nat} {bytes : Bytes}

/-- The arena with bytes laid over it from `offset` on. -/
def written (a : Arena) (offset : Nat) (bytes : Bytes) : Arena :=
  { a with cells := overlay a.cells offset bytes }

@[simp] theorem written_capacity (a : Arena) (offset : Nat) (bytes : Bytes) :
    (a.written offset bytes).capacity = a.capacity := rfl

@[simp] theorem written_used (a : Arena) (offset : Nat) (bytes : Bytes) :
    (a.written offset bytes).used = a.used := rfl

theorem write_eq_ok (h : offset + bytes.length ≤ a.capacity) :
    a.write offset bytes = (.ok (), a.written offset bytes) := by
  rw [write, if_neg (Nat.not_lt.mpr h)]
  rfl

/-- A write past the end of the arena is refused and leaves the arena as it was. -/
theorem write_eq_error (h : a.capacity < offset + bytes.length) :
    a.write offset bytes = (.error .outOfSpace, a) := by
  rw [write, if_pos h]

theorem byteAt_written (a : Arena) (offset : Nat) (bytes : Bytes) (i : Nat) :
    (a.written offset bytes).byteAt i =
      if offset ≤ i ∧ i < offset + bytes.length then bytes.getD (i - offset) 0 else a.byteAt i :=
  getD_overlay ..

/-! ### Handing out space -/

/-- The arena with `length` more bytes handed out. -/
def advanced (a : Arena) (length : Nat) : Arena := { a with used := a.used + length }

@[simp] theorem advanced_capacity (a : Arena) (length : Nat) :
    (a.advanced length).capacity = a.capacity := rfl

@[simp] theorem advanced_used (a : Arena) (length : Nat) :
    (a.advanced length).used = a.used + length := rfl

theorem reserve_eq_ok {length : Nat} (h : length ≤ a.free) :
    a.reserve length = (.ok ⟨a.used, length⟩, a.advanced length) := by
  rw [reserve, if_pos (by simpa [hasRoom] using h)]
  rfl

theorem reserve_eq_error {length : Nat} (h : a.free < length) :
    a.reserve length = (.error .outOfSpace, a) := by
  rw [reserve, if_neg (by simpa [hasRoom] using h)]

/-- Reserving is refused if there is too little left, and otherwise moves the cursor. -/
theorem reserve_cases (a : Arena) (length : Nat) :
    (∃ e, a.reserve length = (.error e, a)) ∨
      (length ≤ a.free ∧ a.reserve length = (.ok ⟨a.used, length⟩, a.advanced length)) := by
  by_cases h : length ≤ a.free
  · exact Or.inr ⟨h, reserve_eq_ok h⟩
  · exact Or.inl ⟨.outOfSpace, reserve_eq_error (Nat.lt_of_not_le h)⟩

/-! ### Spans -/

theorem length_span (a : Arena) (offset length : Nat) :
    (a.span offset length).length = min length (a.capacity - offset) := by
  rw [span, length_window]

theorem getD_span (a : Arena) (offset length i : Nat) :
    (a.span offset length).getD i 0 =
      if i < min length (a.capacity - offset) then a.byteAt (offset + i) else 0 :=
  getD_window ..

/-- A list of bytes is a span if it has the right length and the right bytes. -/
theorem span_eq_of_byteAt {length : Nat} {bs : Bytes}
    (hl : bs.length = min length (a.capacity - offset))
    (hb : ∀ i < bs.length, a.byteAt (offset + i) = bs.getD i 0) : a.span offset length = bs := by
  have hlen : (a.span offset length).length = bs.length := by rw [length_span, hl]
  apply List.ext_getElem hlen
  intro i h₁ h₂
  have hget := getD_span a offset length i
  rw [← hl, if_pos h₂, hb i h₂] at hget
  simpa [List.getD_eq_getElem?_getD, h₁, h₂] using hget

/-- Bytes just written are read back. -/
theorem span_written (h : offset + bytes.length ≤ a.capacity) :
    (a.written offset bytes).span offset bytes.length = bytes := by
  apply span_eq_of_byteAt
  · rw [written_capacity]
    omega
  · intro i hi
    rw [byteAt_written, if_pos ⟨by omega, by omega⟩, Nat.add_sub_cancel_left]

/-- A write is not seen in a span that it has no byte in common with. -/
theorem span_written_of_apart {start length : Nat}
    (h : offset + bytes.length ≤ start ∨ start + length ≤ offset) :
    (a.written offset bytes).span start length = a.span start length := by
  apply span_eq_of_byteAt
  · rw [length_span, written_capacity]
  · intro i hi
    rw [length_span] at hi
    rw [byteAt_written, if_neg (by omega), getD_span, if_pos hi]

end Arena

end RamShell.Volume
