import RamShell.Text.Blank
/-!
# RamShell.Shell.History

The lines typed last. The history holds a bounded number of lines and numbers them from the first
line ever recorded, so a line keeps its number when older ones are dropped.
-/

namespace RamShell.Shell

/-- The lines typed last. -/
structure History where
  /-- The greatest number of lines held. -/
  capacity : Nat
  /-- The lines held, oldest first. -/
  lines : List String
  /-- The number of lines ever recorded. -/
  total : Nat
  deriving DecidableEq, Repr

namespace History

/-- A history without lines. -/
def empty (capacity : Nat) : History := ⟨capacity, [], 0⟩

/-- Records a line and drops the oldest one if there is no room. Blank lines are not recorded, and
a history without capacity records nothing. -/
def push (h : History) (line : String) : History :=
  if Text.isBlankText line || h.capacity == 0 then h
  else
    let kept := if h.lines.length = h.capacity then h.lines.tail else h.lines
    { h with lines := kept ++ [line], total := h.total + 1 }

/-- The number of lines held. -/
def size (h : History) : Nat := h.lines.length

/-- Whether no line is held. -/
def isEmpty (h : History) : Bool := h.lines.isEmpty

/-- The lines held, oldest first, each with its number counted from one. -/
def numbered (h : History) : List (Nat × String) :=
  (h.lines.zipIdx (h.total - h.lines.length + 1)).map fun (line, number) => (number, line)

/-- The line recorded last. -/
def last? (h : History) : Option String := h.lines.getLast?

@[simp] theorem push_of_blank {h : History} {line : String} (hb : Text.isBlankText line = true) :
    h.push line = h := by
  simp [push, hb]

end History

end RamShell.Shell
