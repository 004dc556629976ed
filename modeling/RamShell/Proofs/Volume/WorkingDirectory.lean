import RamShell.Proofs.Path.Resolution
import RamShell.Proofs.Volume.Rooted
/-!
# RamShell.Proofs.Volume.WorkingDirectory

Where a change of the working directory leads. The new one is always what the target resolves to
from the old one; `.` and `..`, which are answered without resolving anything, are no exception.

What differs is who looks: any target but `..` is granted only if the table has a directory there,
and one step up is granted unasked. In a rooted volume what a directory lies in is a directory, so
there nothing is lost. A volume may also hold a directory whose parent is missing, or is a file, and
then one step up leads out of the directories that exist. The main statement is
`changeDirectory_resolves`.
-/

namespace RamShell.Volume

variable {limits : Limits} {v : Volume} {target cwd dir : String}

/-- One step up is granted unasked. -/
theorem changeDirectory_dots (hcwd : Path.Canonical cwd) :
    v.changeDirectory ".." cwd = .ok (Path.resolve ".." cwd) := by
  rw [changeDirectory, if_pos rfl, Path.up_eq_parent hcwd, Path.resolve_dots hcwd]

/-- Any other target is resolved, and what is there decides. -/
theorem changeDirectory_of_ne_dots (hcwd : Path.Canonical cwd)
    (hdir : v.table.kindAt cwd = .directory) (htarget : target ≠ "..") :
    v.changeDirectory target cwd =
      match v.table.kindAt (Path.resolve target cwd) with
      | .directory => .ok (Path.resolve target cwd)
      | .file => .error .notADirectory
      | .unknown => .error .notFound := by
  by_cases hdot : target = "."
  · subst hdot
    rw [Path.resolve_dot hcwd, hdir, changeDirectory, if_neg htarget, if_pos rfl]
  rw [changeDirectory, if_neg htarget, if_neg hdot]
  dsimp only
  cases hfound : v.table.find? (Path.resolve target cwd) with
  | none => rw [Table.kindAt_eq_unknown_iff.mpr hfound]
  | some e =>
    rw [Table.kindAt_of_find? hfound, Entry.kind]
    dsimp only
    cases e.isDirectory <;> rfl

/-- One step up from a directory in a rooted volume there is a directory. -/
theorem Rooted.kindAt_dots (hr : Rooted v) (h : Sound limits v) (hcwd : Path.Canonical cwd)
    (hdir : v.table.kindAt cwd = .directory) :
    v.table.kindAt (Path.resolve ".." cwd) = .directory := by
  rw [Path.resolve_dots hcwd]
  by_cases hroot : cwd = Path.root
  · rw [hroot, Path.parent_root]
    exact h.kindAt_root
  · exact hr.parent (by simp [hdir]) hroot

/-- A target is granted if it is one step up, or if there is a directory. -/
theorem changeDirectory_eq_ok_iff (hcwd : Path.Canonical cwd)
    (hdir : v.table.kindAt cwd = .directory) :
    v.changeDirectory target cwd = .ok dir ↔
      dir = Path.resolve target cwd ∧ (target = ".." ∨ v.table.kindAt dir = .directory) := by
  by_cases hdots : target = ".."
  · subst hdots
    rw [changeDirectory_dots hcwd, Except.ok.injEq]
    simp [eq_comm]
  · rw [changeDirectory_of_ne_dots hcwd hdir hdots]
    constructor
    · intro hok
      cases hkind : v.table.kindAt (Path.resolve target cwd) with
      | directory =>
        rw [hkind] at hok
        obtain rfl := Except.ok.inj hok
        exact ⟨rfl, Or.inr hkind⟩
      | file => simp [hkind] at hok
      | unknown => simp [hkind] at hok
    · rintro ⟨rfl, hkind⟩
      rw [hkind.resolve_left hdots]

/-- A target is refused if it is not one step up and no directory is there, and the answer says
what is there instead. -/
theorem changeDirectory_eq_error_iff (hcwd : Path.Canonical cwd)
    (hdir : v.table.kindAt cwd = .directory) {err : Error} :
    v.changeDirectory target cwd = .error err ↔
      target ≠ ".." ∧
        (err = .notADirectory ∧ v.table.kindAt (Path.resolve target cwd) = .file ∨
          err = .notFound ∧ v.table.kindAt (Path.resolve target cwd) = .unknown) := by
  by_cases hdots : target = ".."
  · subst hdots
    simp [changeDirectory_dots hcwd]
  · rw [changeDirectory_of_ne_dots hcwd hdir hdots]
    cases v.table.kindAt (Path.resolve target cwd) <;> simp [hdots, eq_comm]

/-- From a directory in a rooted volume only directories are reached. -/
theorem Rooted.changeDirectory (h : Sound limits v) (hr : Rooted v) (hcwd : Path.Canonical cwd)
    (hdir : v.table.kindAt cwd = .directory) (hok : v.changeDirectory target cwd = .ok dir) :
    Path.Canonical dir ∧ v.table.kindAt dir = .directory := by
  obtain ⟨rfl, hgranted⟩ := (changeDirectory_eq_ok_iff hcwd hdir).mp hok
  refine ⟨Path.canonical_resolve target cwd, ?_⟩
  rcases hgranted with rfl | hkind
  · exact hr.kindAt_dots h hcwd hdir
  · exact hkind

/-! ### Every reachable volume -/

/-- In every reachable volume and from every directory that is there, a change of the working
directory can only lead to what the target resolves to. It leads there if the target is `..`, or if
a directory is there; for any other target the answer says whether a file is there or nothing. If
every entry lies in a directory, one step up there is a directory as well. -/
theorem changeDirectory_resolves (h : Reachable limits v) (hcwd : Path.Canonical cwd)
    (hdir : v.table.kindAt cwd = .directory) (target : String) :
    (∀ dir, v.changeDirectory target cwd = .ok dir ↔
      dir = Path.resolve target cwd ∧ (target = ".." ∨ v.table.kindAt dir = .directory)) ∧
    (v.changeDirectory target cwd = .error .notADirectory ↔
      target ≠ ".." ∧ v.table.kindAt (Path.resolve target cwd) = .file) ∧
    (v.changeDirectory target cwd = .error .notFound ↔
      target ≠ ".." ∧ v.table.kindAt (Path.resolve target cwd) = .unknown) ∧
    (Rooted v → v.table.kindAt (Path.resolve ".." cwd) = .directory) := by
  refine ⟨fun _ => changeDirectory_eq_ok_iff hcwd hdir, ?_, ?_, fun hr => ?_⟩
  · rw [changeDirectory_eq_error_iff hcwd hdir]
    simp
  · rw [changeDirectory_eq_error_iff hcwd hdir]
    simp
  · exact hr.kindAt_dots (sound_of_reachable h) hcwd hdir

/-- `/a/b` is a directory in a file. One step up is granted and leads to the file, which no other
spelling of the same step reaches. Where `/a` is a directory, it leads to a directory. -/
theorem changes_from_directory_in_file :
    let v := ((ofLimits ⟨4, 8, 16, 8, .relocate⟩).serve
      [.create "/a/b" true, .write "/a" [1]]).2
    let w := ((ofLimits ⟨4, 8, 16, 8, .relocate⟩).serve [.createDirs "/a/b"]).2
    v.table.kindAt "/a/b" = .directory ∧ v.table.kindAt "/a" = .file ∧
      v.changeDirectory ".." "/a/b" = .ok "/a" ∧
      v.changeDirectory "../" "/a/b" = .error .notADirectory ∧
      v.changeDirectory "c" "/a/b" = .error .notFound ∧
      v.changeDirectory ".//../b" "/a/b" = .ok "/a/b" ∧
      w.table.kindAt (Path.resolve ".." "/a/b") = .directory := by
  intro v w
  have hv : Reachable ⟨4, 8, 16, 8, .relocate⟩ v := Reachable.serve .start _
  have hw : Reachable ⟨4, 8, 16, 8, .relocate⟩ w := Reachable.serve .start _
  have hcwd : Path.Canonical "/a/b" := by decide
  have hdir : v.table.kindAt "/a/b" = .directory := by decide
  have hall := changeDirectory_resolves hv hcwd hdir
  obtain ⟨hup, -, -, -⟩ := hall ".."
  obtain ⟨-, hfile, -, -⟩ := hall "../"
  obtain ⟨-, -, hmissing, -⟩ := hall "c"
  obtain ⟨haround, -, -, -⟩ := hall ".//../b"
  obtain ⟨-, -, -, hrooted⟩ := changeDirectory_resolves hw hcwd (by decide) ".."
  exact ⟨hdir, by decide, (hup "/a").mpr ⟨by decide, Or.inl rfl⟩,
    hfile.mpr ⟨by decide, by decide⟩, hmissing.mpr ⟨by decide, by decide⟩,
    (haround "/a/b").mpr ⟨by decide, Or.inr hdir⟩,
    hrooted (by unfold Rooted; decide)⟩

/-- `/a/b` was made without its parent. From there one step up leads to `/a`, where nothing is, so
it is not true that a change of the working directory leads to directories alone, or that it says
so where nothing is. -/
theorem step_up_to_missing_directory :
    let v := ((ofLimits ⟨4, 8, 16, 8, .relocate⟩).serve [.create "/a/b" true]).2
    Reachable ⟨4, 8, 16, 8, .relocate⟩ v ∧ Path.Canonical "/a/b" ∧
      v.table.kindAt "/a/b" = .directory ∧ v.changeDirectory ".." "/a/b" = .ok "/a" ∧
      v.table.kindAt (Path.resolve ".." "/a/b") = .unknown ∧
      ¬ (∀ dir, v.changeDirectory ".." "/a/b" = .ok dir ↔
        dir = Path.resolve ".." "/a/b" ∧ v.table.kindAt (Path.resolve ".." "/a/b") = .directory) ∧
      ¬ (v.changeDirectory ".." "/a/b" = .error .notFound ↔
        v.table.kindAt (Path.resolve ".." "/a/b") = .unknown) := by
  intro v
  have hup : v.changeDirectory ".." "/a/b" = .ok "/a" := by decide
  have hmissing : v.table.kindAt (Path.resolve ".." "/a/b") = .unknown := by decide
  refine ⟨Reachable.serve .start _, by decide, by decide, hup, hmissing, ?_, ?_⟩
  · intro hlands
    obtain ⟨-, hkind⟩ := (hlands "/a").mp hup
    exact absurd (hmissing.symm.trans hkind) (by decide)
  · intro hanswer
    exact absurd (hup.symm.trans (hanswer.mpr hmissing)) (by simp)

end RamShell.Volume
