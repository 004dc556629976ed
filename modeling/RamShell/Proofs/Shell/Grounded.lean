import RamShell.Proofs.Shell.Advance
import RamShell.Proofs.Volume.WorkingDirectory
/-!
# RamShell.Proofs.Shell.Grounded

A shell stands on firm ground: its volume is a tree, and its working directory is a directory in
it. The volume alone promises neither. It makes entries without a parent and grants every step
up, so each command has to ask for what it needs, and each does so in its own way.

`Grounded` is the invariant. Every deed of a command keeps it (`Grounded.deed`), and so does every
line on every console (`Grounded.execute`), also one that starts a root session half way. The
main statement is `session_keeps_tree`: the invariant holds after every list of lines, whatever
the consoles refuse.
-/

namespace RamShell.Shell

open Volume (Limits Sound Change)

/-- The volume of a session is a tree, and the session is in a directory of it. -/
structure Grounded (limits : Limits) (s : Session) : Prop where
  /-- The volume is sound. -/
  sound : Sound limits s.volume
  /-- Every entry lies in a directory. -/
  rooted : s.volume.Rooted
  /-- The working directory is in the one spelling that lookups use. -/
  canonical : Path.Canonical s.cwd
  /-- The working directory is a directory. -/
  directory : s.volume.table.kindAt s.cwd = .directory

variable {limits : Limits} {s : Session}

theorem grounded_start {v : Volume} (h : Sound limits v) (hr : v.Rooted) (settings : Settings) :
    Grounded limits (.start v settings) :=
  ⟨h, hr, Path.canonical_root, h.kindAt_root⟩

namespace Grounded

/-- Only the volume and the working directory count. -/
theorem congr (h : Grounded limits s) {t : Session} (hvolume : t.volume = s.volume)
    (hcwd : t.cwd = s.cwd) : Grounded limits t where
  sound := hvolume ▸ h.sound
  rooted := hvolume ▸ h.rooted
  canonical := hcwd ▸ h.canonical
  directory := by
    rw [hvolume, hcwd]
    exact h.directory

theorem move (h : Grounded limits s) {target base dir : String}
    (hbase : base = s.cwd ∨ base = Path.root)
    (hok : s.volume.changeDirectory target base = .ok dir) :
    Grounded limits { s with cwd := dir } := by
  -- A move starts at the working directory or, on the way home, at the root.
  have hthere : Path.Canonical base ∧ s.volume.table.kindAt base = .directory := by
    rcases hbase with rfl | rfl
    · exact ⟨h.canonical, h.directory⟩
    · exact ⟨Path.canonical_root, h.sound.kindAt_root⟩
  obtain ⟨hcanonical, hdir⟩ := h.rooted.changeDirectory h.sound hthere.1 hthere.2 hok
  exact ⟨h.sound, h.rooted, hcanonical, hdir⟩

/-- Home is a directory, and so is the root directory that stands in for it. -/
theorem goHome (h : Grounded limits s) : Grounded limits s.goHome := by
  unfold Session.goHome Session.homeDirectory
  split
  · next hok => exact h.move (Or.inr rfl) hok
  · exact ⟨h.sound, h.rooted, Path.canonical_root, h.sound.kindAt_root⟩

theorem enterRoot (h : Grounded limits s) : Grounded limits s.enterRoot := by
  have hroot : Grounded limits { s with isRoot := true, user := "root" } := h.congr rfl rfl
  exact hroot.goHome

theorem leaveRoot (h : Grounded limits s) : Grounded limits s.leaveRoot := by
  have huser : Grounded limits { s with isRoot := false, user := s.settings.user } :=
    h.congr rfl rfl
  exact huser.goHome

/-! ### Edits -/

/-- A change that is placed and does not drop the working directory. -/
theorem apply (h : Grounded limits s) {c : Change} (hplaced : c.Placed s.volume)
    (hdrops : ¬ c.Drops s.cwd) : Grounded limits { s with volume := (s.volume.apply c).2 } where
  sound := h.sound.apply c
  rooted := h.rooted.apply h.sound hplaced
  canonical := h.canonical
  directory := Volume.directory_apply h.sound hdrops h.directory

theorem createDirs (h : Grounded limits s) (path : String) :
    Grounded limits { s with volume := (s.volume.createDirs path).2 } where
  sound := h.sound.createDirs path
  rooted := (h.rooted.createDirs h.sound path).1
  canonical := h.canonical
  directory := by
    refine Volume.directory_run h.sound (h.sound.run_createDirs path) (fun c hc => ?_) h.directory
    obtain ⟨dir, -, rfl⟩ := Volume.mem_changesOfDirs hc
    exact id

/-- Deleting keeps the working directory, since no directory around it is deleted. -/
theorem delete (h : Grounded limits s) {path : String} (hpath : Path.Canonical path)
    (hguard : path ≠ Path.root → Command.enclosesCwd s path = false) :
    Grounded limits { s with volume := (s.volume.delete path).2 } := by
  by_cases hroot : path = Path.root
  · have hrefused : (s.volume.delete path).2 = s.volume := by
      subst hroot
      rfl
    exact h.congr hrefused rfl
  · refine h.apply (c := .delete path) trivial ?_
    intro hdrops
    -- The guard of the command rules out the only directory that could be missed.
    have hcwd : path = s.cwd := hpath.symm.trans hdrops
    have hguard := hguard hroot
    simp [Command.enclosesCwd, hcwd] at hguard

theorem edit (h : Grounded limits s) {parents : Prop} {path : String}
    (hpath : Path.Canonical path) {result : Volume.Result Unit}
    (he : Edit s parents path result) :
    Grounded limits { s with volume := result.2 } := by
  have hparent := Path.canonical_parent hpath
  cases he with
  | refused e => exact h
  | create isDirectory hdir =>
    rw [Volume.kindAt_of_canonical hparent] at hdir
    exact h.apply (c := .create path isDirectory) (by rw [Change.Placed, hpath]; exact hdir) id
  | createDirs => exact h.createDirs path
  | write bytes hwhere =>
    rw [Volume.kindAt_of_canonical hparent, Volume.kindAt_of_canonical hpath] at hwhere
    refine h.apply (c := .write path bytes) ?_ id
    rw [Change.Placed, hpath]
    exact hwhere.imp (fun hfile => by simp [hfile]) id
  | delete hguard => exact h.delete hpath hguard
  | setPermissions mode => exact h.apply (c := .setPermissions path mode) trivial id

/-! ### Lines -/

theorem deed (h : Grounded limits s) {t : Session} (hd : Deed s t) : Grounded limits t := by
  cases hd with
  | stay => exact h
  | move hbase hok => exact h.move hbase hok
  | edit _ he => exact h.edit (Path.canonical_resolve _ _) he
  | leave => exact h.leaveRoot
  | rename => exact h.congr rfl rfl

/-- Whether a password is due does not count. -/
theorem awaiting (h : Grounded limits s) (due : Bool) :
    Grounded limits { s with awaitsPassword := due } := h.congr rfl rfl

theorem recorded (h : Grounded limits s) (line : String) : Grounded limits (s.recorded line) :=
  h.congr (s.recorded_volume line) (s.recorded_cwd line)

theorem advance (h : Grounded limits s) {line : String} {t : Session} (ht : Advance s line t) :
    Grounded limits t := by
  cases ht with
  | dismissed => exact h.awaiting false
  | admitted => exact (h.awaiting false).enterRoot
  | blank => exact h
  | unknown => exact h.recorded line
  | done _ hdeed => exact (h.recorded line).deed hdeed
  | asked => exact (h.recorded line).awaiting true

/-- One line keeps a session grounded, also if it is taken as a password. -/
theorem execute (h : Grounded limits s) (line : String) (c : Console) :
    Grounded limits (s.execute line c).2.1 :=
  h.advance (advance_execute s line c)

end Grounded

/-! ### Every session -/

/-- Lines that lead from one session to another, each on a console of its own. -/
inductive Session.Leads : Session → List String → Session → Prop
  /-- No line. -/
  | done (s : Session) : Leads s [] s
  /-- One more line in front. -/
  | line {s t : Session} {lines : List String} (line : String) (c : Console)
      (h : Leads (s.execute line c).2.1 lines t) : Leads s (line :: lines) t

/-- Takes lines one after the other on one console. -/
def Session.executeAll (s : Session) (c : Console) : List String → Session × Console
  | [] => (s, c)
  | line :: lines =>
    let (_, s, c) := s.execute line c
    s.executeAll c lines

theorem Session.leads_executeAll (s : Session) (c : Console) (lines : List String) :
    s.Leads lines (s.executeAll c lines).1 := by
  induction lines generalizing s c with
  | nil => exact .done s
  | cons text lines ih => exact .line text c (ih _ _)

theorem Grounded.leads (h : Grounded limits s) {t : Session} {lines : List String}
    (hlines : s.Leads lines t) : Grounded limits t := by
  induction hlines with
  | done => exact h
  | line text c _ ih => exact ih (h.execute text c)

/-- A shell over a reachable volume whose entries all lie in directories keeps it so, whatever
lines it is given and whatever the consoles refuse: the root is there, no entry loses its
directory, no file has anything below it, and the working directory is a canonical path to a
directory. A fresh volume and one that was seeded are such volumes. -/
theorem session_keeps_tree (limits : Limits) :
    (Volume.ofLimits limits).Rooted ∧ (Volume.ofLimits limits).seed.2.Rooted ∧
    ∀ (v : Volume) (settings : Settings) (lines : List String) (t : Session),
      Volume.Reachable limits v → v.Rooted → (Session.start v settings).Leads lines t →
      t.volume.kindAt Path.root = .directory ∧
      t.volume.Rooted ∧
      (∀ d ∈ t.volume.table.entries, ∀ e ∈ t.volume.table.entries,
        e.isBelow (Path.childStem d.path) = true → d.isDirectory = true) ∧
      Path.normalize t.cwd = t.cwd ∧ t.volume.kindAt t.cwd = .directory := by
  have hfresh := Volume.sound_ofLimits limits
  have hrooted := Volume.rooted_ofLimits limits
  refine ⟨hrooted, hrooted.seed hfresh, ?_⟩
  intro v settings lines t hreachable hv hlines
  have hstart := grounded_start (Volume.sound_of_reachable hreachable) hv settings
  have h := hstart.leads hlines
  refine ⟨?_, h.rooted, ?_, h.canonical, ?_⟩
  · rw [Volume.kindAt_of_canonical Path.canonical_root]
    exact h.sound.kindAt_root
  · intro d hd e he hbelow
    exact h.rooted.isDirectory_of_below h.sound hd he hbelow
  · rw [Volume.kindAt_of_canonical h.canonical]
    exact h.directory

/-- A directory that a session has moved to stays, and so does what is on the way to it, even if
nothing of what is written is taken. -/
theorem tree_after_refused_removal :
    let s := Session.start (Volume.ofLimits ⟨4, 8, 8, 8, .inPlace⟩) .standard
    let t := (s.executeAll ⟨fun _ _ => false, 0, []⟩ ["mkdir -p a/b", "cd a/b", "rm /a"]).1
    t.cwd = "/a/b" ∧ t.volume.kindAt "/a/b" = .directory ∧ t.volume.Rooted := by
  intro s t
  have hcwd : t.cwd = "/a/b" := by decide +kernel
  have hlines : s.Leads _ t := s.leads_executeAll _ _
  obtain ⟨hrooted, -, hkeeps⟩ := session_keeps_tree ⟨4, 8, 8, 8, .inPlace⟩
  obtain ⟨-, htree, -, -, hdir⟩ := hkeeps _ .standard _ t .start hrooted hlines
  rw [hcwd] at hdir
  exact ⟨hcwd, hdir, htree⟩

end RamShell.Shell
