import RamShell.Shell.Execute
/-!
# RamShell.Proofs.Shell.Deed

What a command can do to a session. There are two dozen commands and each has its own ways to fail, but
they do one of five things, if they do anything: they stay, move, make one edit to the volume, end a
root session or rename the host. `Deed` lists them with the conditions that the command asked for, and
`Edit` does so for the edits.

Which command does which of them, and when, is `Conduct`. What a session keeps over its lines is a case
analysis on `Deed`.
-/

namespace RamShell.Shell

open Command

/-! ### Edits -/

/-- What a command asks of the volume for a canonical path, and what came of it. All of a path is asked
for only if `parents` holds. -/
inductive Edit (s : Session) (parents : Prop) (path : String) : Volume.Result Unit → Prop
  /-- The command asked for nothing. -/
  | refused (e : Volume.Error) : Edit s parents path (.error e, s.volume)
  /-- An entry was asked for in a directory. -/
  | create (isDirectory : Bool) (h : s.volume.kindAt (Path.parent path) = .directory) :
      Edit s parents path (s.volume.create path isDirectory)
  /-- A directory was asked for with its parents. -/
  | createDirs (h : parents) : Edit s parents path (s.volume.createDirs path)
  /-- A file was written to that exists or whose directory does. -/
  | write (bytes : Bytes)
      (h : s.volume.kindAt path = .file ∨ s.volume.kindAt (Path.parent path) = .directory) :
      Edit s parents path (s.volume.write path bytes)
  /-- An entry was deleted that is not on the way to the working directory. -/
  | delete (h : path ≠ Path.root → enclosesCwd s path = false) :
      Edit s parents path (s.volume.delete path)
  /-- The permission bits of an entry were changed. -/
  | setPermissions (mode : UInt16) : Edit s parents path (s.volume.setPermissions path mode)

variable {s : Session} {parents : Prop} {path : String}

theorem checkParent_eq_ok_iff {v : Volume} :
    checkParent v path = .ok () ↔ v.kindAt (Path.parent path) = .directory := by
  unfold checkParent
  cases v.kindAt (Path.parent path) <;> simp

/-- A change behind a check of the parent is not asked for unless the parent is a directory. -/
theorem Edit.of_guarded {result : Volume.Result Unit}
    (h : s.volume.kindAt (Path.parent path) = .directory → Edit s parents path result) :
    Edit s parents path (guarded s.volume (checkParent s.volume path) result) := by
  unfold guarded
  split
  · next hcheck => exact h (checkParent_eq_ok_iff.mp hcheck)
  · exact .refused _

theorem Edit.of_put (s : Session) (parents : Prop) (path : String) (bytes : Bytes) (append : Bool) :
    Edit s parents path (put s.volume path bytes append) := by
  unfold put
  cases hkind : s.volume.kindAt path with
  | directory => exact .refused _
  | file =>
    dsimp only
    split
    · cases s.volume.readAll path with
      | ok held => exact .write _ (Or.inl hkind)
      | error e => exact .refused e
    · exact .write _ (Or.inl hkind)
  | unknown => exact .of_guarded fun hparent => .write _ (Or.inr hparent)

/-! ### Deeds -/

/-- What a command does to a session. -/
inductive Deed (s : Session) : Session → Prop
  /-- Nothing. -/
  | stay : Deed s s
  /-- It moves to another working directory. -/
  | move {target base dir : String} (hbase : base = s.cwd ∨ base = Path.root)
      (h : s.volume.changeDirectory target base = .ok dir) : Deed s { s with cwd := dir }
  /-- It edits the volume, which may fail. -/
  | edit {parents : Prop} (target : String) {result : Volume.Result Unit}
      (h : Edit s parents (s.resolve target) result) : Deed s { s with volume := result.2 }
  /-- It ends a root session. -/
  | leave (hroot : s.isRoot = true) : Deed s s.leaveRoot
  /-- It renames the host of a root session. -/
  | rename (hroot : s.isRoot = true) (name : String) : Deed s { s with hostname := name }

end RamShell.Shell
