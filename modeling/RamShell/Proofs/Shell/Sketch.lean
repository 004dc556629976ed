import RamShell.Proofs.Shell.Lettering
/-!
# RamShell.Proofs.Shell.Sketch

What a part of a drawing draws. A drawing threads a sketch through all its levels: the lines so far, the
marks in front of the next line, and two counts. Its parts share the marks, and each has to leave them as
it found them.

`Draws` says all this of one part at once: with the given marks it does not fail, it adds the lines of
some branches, it counts each of them, and the marks are the same before and after. Parts that draw
something draw it in a row (`Draws.append`, `Draws.forM`), and with one more mark in front
(`Draws.indented`). So nothing else has to be known of a sketch.
-/

namespace RamShell.Shell.Command

open Script (say sayIn)
open Volume (Entry)

/-! ### Branches -/

/-- One line of a drawing. -/
structure Branch where
  /-- The marks: what stands for the directories around the entry. -/
  indent : String
  /-- Whether the entry is the last one of its directory. -/
  isLast : Bool
  /-- The entry. -/
  entry : Entry

/-- The line of an entry. -/
def Branch.script (b : Branch) : Script :=
  say [b.indent, if b.isLast then "└── " else "├── "] ++
    if b.entry.isDirectory then sayIn .lightBlue [b.entry.listingName, "\n"]
    else say [b.entry.listingName, "\n"]

namespace Sketch

/-- A sketch with branches added to it. -/
def add (sk : Sketch) (bs : List Branch) : Sketch :=
  { sk with
    script := sk.script ++ bs.flatMap Branch.script
    directories := sk.directories + bs.countP (·.entry.isDirectory)
    files := sk.files + bs.countP (!·.entry.isDirectory) }

@[simp] theorem add_indent (sk : Sketch) (bs : List Branch) : (sk.add bs).indent = sk.indent := rfl

theorem add_nil (sk : Sketch) : sk.add [] = sk := by
  simp [add]

theorem add_add (sk : Sketch) (as bs : List Branch) : (sk.add as).add bs = sk.add (as ++ bs) := by
  simp only [add, List.flatMap_append, List.countP_append, List.append_assoc, Nat.add_assoc]

end Sketch

/-- The bytes of what is in front are cut to it. -/
theorem takeBytes_append_of_length (as bs : List Char) :
    takeBytes (as.flatMap String.utf8EncodeChar).length (as ++ bs) = as := by
  induction as with
  | nil =>
    cases bs with
    | nil => rfl
    | cons b bs => exact if_neg (Nat.not_le.mpr b.utf8Size_pos)
  | cons a as ih =>
    rw [List.flatMap_cons, List.length_append, String.length_utf8EncodeChar, List.cons_append,
      takeBytes, if_pos (Nat.le_add_right ..), Nat.add_sub_cancel_left, ih]

/-- A mark that was added is cut off again. -/
theorem Sketch.truncate_push (sk : Sketch) (mark : String) (bs : List Branch) :
    ((sk.push mark).add bs).truncate sk.indent.utf8ByteSize = sk.add bs := by
  have hcut : String.ofList (takeBytes sk.indent.utf8ByteSize (sk.indent ++ mark).toList) =
      sk.indent := by
    rw [String.toList_append, ← Text.length_encode, Text.encode, takeBytes_append_of_length,
      String.ofList_toList]
  simp only [truncate, add, push, hcut]

/-! ### Parts of a drawing -/

/-- A part of a drawing that draws branches, and leaves the marks as they are. -/
def Draws (drawing : Drawing Unit) (indent : String) (bs : List Branch) : Prop :=
  ∀ sk, sk.indent = indent → drawing sk = .ok () (sk.add bs)

namespace Draws

variable {a b : Drawing Unit} {indent mark : String} {as bs : List Branch}

theorem nothing (indent : String) : Draws (pure ()) indent [] := by
  intro sk _
  rw [sk.add_nil]
  rfl

/-- One part behind the other. -/
theorem append (ha : Draws a indent as) (hb : Draws b indent bs) :
    Draws (do a; b) indent (as ++ bs) := by
  intro sk hsk
  show EStateM.bind a (fun _ => b) sk = _
  rw [EStateM.bind, ha sk hsk]
  dsimp only
  rw [hb (sk.add as) hsk, sk.add_add]

/-- A loop draws what its rounds draw. -/
theorem forM {α : Type} {f : α → Drawing Unit} {g : α → List Branch} {xs : List α}
    (h : ∀ x ∈ xs, Draws (f x) indent (g x)) : Draws (xs.forM f) indent (xs.flatMap g) := by
  induction xs with
  | nil => exact nothing indent
  | cons x xs ih =>
    obtain ⟨hx, hxs⟩ := List.forall_mem_cons.mp h
    rw [List.flatMap_cons]
    exact hx.append (ih hxs)

/-- The mark is there for the lines of the part, and not any more behind them. -/
theorem indented (h : Draws a (indent ++ mark) bs) : Draws (indented mark a) indent bs := by
  intro sk hsk
  have hrun : a (sk.push mark) = .ok () ((sk.push mark).add bs) := h _ (congrArg (· ++ mark) hsk)
  show EStateM.bind a (fun _ => modify (·.truncate sk.indent.utf8ByteSize)) (sk.push mark) = _
  rw [EStateM.bind, hrun, ← sk.truncate_push mark bs]
  rfl

/-! ### Names -/

variable {e : Entry} {isLast : Bool} {below : String → Drawing Unit}

/-- The name of an entry draws its line, and if it is that of a directory, what is below it. -/
theorem drawName
    (hname : directoryName? e.listingName = if e.isDirectory then some e.name else none)
    (hbelow : e.isDirectory = true → Draws (below e.name) indent bs) :
    Draws (drawName below e.listingName isLast) indent
      (⟨indent, isLast, e⟩ :: if e.isDirectory then bs else []) := by
  intro sk hsk
  unfold Command.drawName
  rw [hname]
  subst hsk
  cases hdir : e.isDirectory with
  | true =>
    rw [hdir] at hbelow
    have hrun := hbelow rfl (sk.add [⟨sk.indent, isLast, e⟩]) rfl
    rw [sk.add_add] at hrun
    refine Eq.trans (congrArg (below e.name) ?_) hrun
    simp [Sketch.add, Sketch.write, Sketch.countDirectory, Branch.script, hdir]
  | false =>
    refine congrArg (EStateM.Result.ok ()) ?_
    simp [Sketch.add, Sketch.write, Sketch.countFile, Branch.script, hdir]

end Draws

end RamShell.Shell.Command
