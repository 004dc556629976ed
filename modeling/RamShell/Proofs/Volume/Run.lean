import RamShell.Proofs.Volume.Sound
import RamShell.Volume.Request
/-!
# RamShell.Proofs.Volume.Run

Requests as rows of elementary changes. `changes` reads off a request which elementary changes it
makes, in order and without those that are refused; a directory made with its parents and a seeding
can make many of them and stop half way. `history` does the same for a list of requests.

The main statement is `run_answer`: answering a request leads to exactly the volume to which its
changes lead. Whatever a change keeps is therefore kept by every request (`Sound.run`) and holds
of every reachable volume (`sound_of_reachable`).
-/

namespace RamShell.Volume

/-! ### The changes of a request -/

/-- A change if it takes place, and nothing if it is refused. -/
def attempt (v : Volume) (c : Change) : List Change :=
  match (v.apply c).1 with
  | .ok () => [c]
  | .error _ => []

/-- The directories made for a list of them. -/
def changesOfMissing (v : Volume) : List String → List Change
  | [] => []
  | dir :: dirs =>
    match v.table.find? dir with
    | some e => if e.isDirectory then v.changesOfMissing dirs else []
    | none =>
      match v.create dir true with
      | (.ok (), w) => .create dir true :: w.changesOfMissing dirs
      | (.error _, _) => []

/-- The directories made for a directory and its parents. -/
def changesOfDirs (v : Volume) (path : String) : List Change :=
  match keyOf path with
  | .error _ => []
  | .ok c => v.changesOfMissing (chain (Path.names c))

/-- The directories made for the standard directories. -/
def changesOfAddDirs (v : Volume) : List String → List Change
  | [] => []
  | dir :: dirs =>
    v.changesOfDirs dir ++
      match v.createDirs dir with
      | (.ok (), w) => w.changesOfAddDirs dirs
      | (.error _, _) => []

/-- The changes made for one file of the first boot. -/
def changesOfFixture (v : Volume) (f : Fixture) : List Change :=
  match v.write f.path f.content with
  | (.ok (), w) => .write f.path f.content :: w.attempt (.setPermissions f.path f.mode)
  | (.error _, _) => []

/-- The changes made for the files of the first boot. -/
def changesOfFixtures (v : Volume) : List Fixture → List Change
  | [] => []
  | f :: fs =>
    if v.contains f.path then v.changesOfFixtures fs
    else
      v.changesOfFixture f ++
        match v.addFixture f with
        | (.ok (), w) => w.changesOfFixtures fs
        | (.error _, _) => []

/-- The changes made by seeding. -/
def changesOfSeed (v : Volume) : List Change :=
  v.changesOfAddDirs skeletonDirs ++
    match v.addDirs skeletonDirs with
    | (.ok (), w) => w.changesOfFixtures fixtures
    | (.error _, _) => []

/-- The changes that a request makes, in order. A question makes none. -/
def changes (v : Volume) : Request → List Change
  | .create path isDirectory => v.attempt (.create path isDirectory)
  | .createDirs path => v.changesOfDirs path
  | .write path bytes => v.attempt (.write path bytes)
  | .delete path => v.attempt (.delete path)
  | .setPermissions path mode => v.attempt (.setPermissions path mode)
  | .seed => v.changesOfSeed
  | .reset => [.reset]
  | _ => []

/-- The changes that a list of requests makes, in order. -/
def history (v : Volume) : List Request → List Change
  | [] => []
  | r :: rs => v.changes r ++ (v.answer r).2.history rs

/-! ### Which changes a request makes -/

section Members

variable {v : Volume} {c : Change}

theorem eq_of_mem_attempt {d : Change} (h : c ∈ v.attempt d) : c = d := by
  unfold attempt at h
  split at h
  · exact List.mem_singleton.mp h
  · exact absurd h List.not_mem_nil

theorem mem_changesOfMissing {dirs : List String} (h : c ∈ v.changesOfMissing dirs) :
    ∃ dir ∈ dirs, c = .create dir true := by
  induction dirs generalizing v with
  | nil => exact absurd h List.not_mem_nil
  | cons dir dirs ih =>
    have hrest : ∀ {w : Volume}, c ∈ w.changesOfMissing dirs →
        ∃ d ∈ dir :: dirs, c = .create d true := by
      intro w hw
      obtain ⟨d, hd, hc⟩ := ih hw
      exact ⟨d, List.mem_cons_of_mem _ hd, hc⟩
    rw [changesOfMissing] at h
    split at h
    · split at h
      · exact hrest h
      · exact absurd h List.not_mem_nil
    · split at h
      · rcases List.mem_cons.mp h with hc | h
        · exact ⟨dir, List.mem_cons_self .., hc⟩
        · exact hrest h
      · exact absurd h List.not_mem_nil

theorem mem_changesOfDirs {path : String} (h : c ∈ v.changesOfDirs path) :
    ∃ dir ∈ chain (Path.names path), c = .create dir true := by
  unfold changesOfDirs at h
  rcases keyOf_cases path with ⟨-, hkey⟩ | ⟨-, hkey⟩
  · rw [hkey] at h
    exact absurd h List.not_mem_nil
  · rw [hkey] at h
    dsimp only at h
    rw [Path.names_normalize] at h
    exact mem_changesOfMissing h

/-- The directories on the way to a path are given by their canonical paths. -/
theorem canonical_of_mem_chain {ns : List Path.Name} (hns : ∀ n ∈ ns, Path.Proper n) {dir : String}
    (h : dir ∈ chain ns) : Path.Canonical dir := by
  obtain ⟨i, -, rfl⟩ := List.mem_map.mp h
  exact Path.canonical_ofNames fun n hn => hns n (List.mem_of_mem_take hn)

theorem mem_changesOfAddDirs {dirs : List String} (h : c ∈ v.changesOfAddDirs dirs) :
    ∃ path ∈ dirs, ∃ dir ∈ chain (Path.names path), c = .create dir true := by
  induction dirs generalizing v with
  | nil => exact absurd h List.not_mem_nil
  | cons path dirs ih =>
    rw [changesOfAddDirs] at h
    rcases List.mem_append.mp h with h | h
    · exact ⟨path, List.mem_cons_self .., mem_changesOfDirs h⟩
    · split at h
      · obtain ⟨p, hp, hc⟩ := ih h
        exact ⟨p, List.mem_cons_of_mem _ hp, hc⟩
      · exact absurd h List.not_mem_nil

theorem mem_changesOfFixture {f : Fixture} (h : c ∈ v.changesOfFixture f) :
    c = .write f.path f.content ∨ c = .setPermissions f.path f.mode := by
  unfold changesOfFixture at h
  split at h
  · rcases List.mem_cons.mp h with hc | h
    · exact Or.inl hc
    · exact Or.inr (eq_of_mem_attempt h)
  · exact absurd h List.not_mem_nil

theorem mem_changesOfFixtures {fs : List Fixture} (h : c ∈ v.changesOfFixtures fs) :
    ∃ f ∈ fs, c = .write f.path f.content ∨ c = .setPermissions f.path f.mode := by
  induction fs generalizing v with
  | nil => exact absurd h List.not_mem_nil
  | cons f fs ih =>
    have hrest : ∀ {w : Volume}, c ∈ w.changesOfFixtures fs →
        ∃ g ∈ f :: fs, c = .write g.path g.content ∨ c = .setPermissions g.path g.mode := by
      intro w hw
      obtain ⟨g, hg, hc⟩ := ih hw
      exact ⟨g, List.mem_cons_of_mem _ hg, hc⟩
    rw [changesOfFixtures] at h
    split at h
    · exact hrest h
    · rcases List.mem_append.mp h with h | h
      · exact ⟨f, List.mem_cons_self .., mem_changesOfFixture h⟩
      · split at h
        · exact hrest h
        · exact absurd h List.not_mem_nil

/-- Seeding makes standard directories and standard files, and nothing else. -/
theorem mem_changesOfSeed (h : c ∈ v.changesOfSeed) :
    (∃ path ∈ skeletonDirs, ∃ dir ∈ chain (Path.names path), c = .create dir true) ∨
      ∃ f ∈ fixtures, c = .write f.path f.content ∨ c = .setPermissions f.path f.mode := by
  rcases List.mem_append.mp h with h | h
  · exact Or.inl (mem_changesOfAddDirs h)
  · split at h
    · exact Or.inr (mem_changesOfFixtures h)
    · exact absurd h List.not_mem_nil

/-- Only the request to drop everything drops everything. -/
theorem reset_not_mem_changes {r : Request} (hr : r ≠ .reset) : .reset ∉ v.changes r := by
  intro h
  cases r with
  | reset => exact hr rfl
  | createDirs path =>
    obtain ⟨dir, -, hc⟩ := mem_changesOfDirs h
    exact Change.noConfusion hc
  | seed =>
    rcases mem_changesOfSeed h with ⟨-, -, dir, -, hc⟩ | ⟨f, -, hc | hc⟩ <;>
      exact Change.noConfusion hc
  | create => exact Change.noConfusion (eq_of_mem_attempt h)
  | write => exact Change.noConfusion (eq_of_mem_attempt h)
  | delete => exact Change.noConfusion (eq_of_mem_attempt h)
  | setPermissions => exact Change.noConfusion (eq_of_mem_attempt h)
  | _ => exact absurd h List.not_mem_nil

end Members

/-! ### Where changes lead -/

/-- Changes that take place one after the other, and the volume that they lead to. -/
inductive Run : Volume → List Change → Volume → Prop
  /-- No change. -/
  | done (v : Volume) : Run v [] v
  /-- One more change in front. -/
  | step {v w x : Volume} {c : Change} {cs : List Change} (hc : v.apply c = (.ok (), w))
      (hcs : Run w cs x) : Run v (c :: cs) x

theorem Run.append {v w x : Volume} {cs ds : List Change} (h : Run v cs w) (h' : Run w ds x) :
    Run v (cs ++ ds) x := by
  induction h with
  | done => exact h'
  | step hc _ ih => exact .step hc (ih h')

variable {limits : Limits} {v w : Volume}

/-- What every change keeps, a run keeps. -/
theorem Sound.run {cs : List Change} (h : Sound limits v) (hrun : Run v cs w) :
    Sound limits w := by
  induction hrun with
  | done => exact h
  | step hc _ ih => exact ih (h.effect (effect_of_ok h.used_le hc))

/-- A refused change leads nowhere, so the volume is where its successful changes lead. -/
theorem Sound.run_attempt (h : Sound limits v) (c : Change) :
    Run v (v.attempt c) (v.apply c).2 := by
  unfold attempt
  rcases apply_cases h.used_le c with ⟨e, he⟩ | ⟨w, hw, -⟩
  · rw [he]
    exact .done v
  · rw [hw]
    exact .step hw (.done w)

theorem Sound.apply (h : Sound limits v) (c : Change) : Sound limits (v.apply c).2 :=
  h.run (h.run_attempt c)

theorem Sound.run_createMissing (h : Sound limits v) (dirs : List String) :
    Run v (v.changesOfMissing dirs) (v.createMissing dirs).2 := by
  induction dirs generalizing v with
  | nil => exact .done v
  | cons dir dirs ih =>
    rw [changesOfMissing, createMissing]
    cases v.table.find? dir with
    | some e =>
      dsimp only
      split
      · exact ih h
      · exact .done v
    | none =>
      dsimp only
      rcases create_effect v dir true with ⟨e, he⟩ | ⟨w, hw, heffect⟩
      · rw [he]
        exact .done v
      · rw [hw]
        exact .step (c := .create dir true) hw (ih (h.effect heffect))

theorem Sound.run_createDirs (h : Sound limits v) (path : String) :
    Run v (v.changesOfDirs path) (v.createDirs path).2 := by
  unfold changesOfDirs createDirs
  cases keyOf path with
  | error e => exact .done v
  | ok c => exact h.run_createMissing _

theorem Sound.createDirs (h : Sound limits v) (path : String) :
    Sound limits (v.createDirs path).2 := h.run (h.run_createDirs path)

theorem Sound.run_addDirs (h : Sound limits v) (dirs : List String) :
    Run v (v.changesOfAddDirs dirs) (v.addDirs dirs).2 := by
  induction dirs generalizing v with
  | nil => exact .done v
  | cons dir dirs ih =>
    have hdir := h.run_createDirs dir
    have hsound := h.createDirs dir
    rw [changesOfAddDirs, addDirs]
    rcases hmade : v.createDirs dir with ⟨(e | ⟨⟨⟩⟩), w⟩
    · rw [hmade] at hdir
      simpa using hdir
    · rw [hmade] at hdir hsound
      exact hdir.append (ih hsound)

theorem Sound.run_addFixture (h : Sound limits v) (f : Fixture) :
    Run v (v.changesOfFixture f) (v.addFixture f).2 := by
  unfold changesOfFixture addFixture
  rcases write_effect h.used_le f.path f.content with ⟨e, he⟩ | ⟨w, hw, heffect⟩
  · rw [he]
    exact .done v
  · rw [hw]
    exact .step (c := .write f.path f.content) hw
      ((h.effect heffect).run_attempt (.setPermissions f.path f.mode))

theorem Sound.of_addDirs (h : Sound limits v) {dirs : List String} {r : Except Error Unit}
    (hrow : v.addDirs dirs = (r, w)) : Sound limits w := by
  have hsound := h.run (h.run_addDirs dirs)
  rwa [hrow] at hsound

/-- The volume with a file of the first boot added at the end: it is written, and then given its
mode. -/
def withFixture (v : Volume) (f : Fixture) : Volume :=
  let file := Entry.filled (Path.normalize f.path) f.content.length v.arena.used (v.tick + 1)
  { v with
    table := v.table.insert (file.withMode f.mode (v.tick + 2))
    arena := (v.arena.advanced f.content.length).written v.arena.used f.content
    tick := v.tick + 2 }

/-- A file that did not exist is made with its content and its mode, or not at all: what was written
is there to be given its mode. -/
theorem Sound.addFixture_cases (h : Sound limits v) {f : Fixture} (hnew : v.find? f.path = none) :
    (∃ e, v.addFixture f = (.error e, v)) ∨
      (v.addFixture f = (.ok (), v.withFixture f) ∧ f.path ≠ "" ∧
        f.content.length ≤ v.arena.free) := by
  rw [addFixture]
  rcases write_effect h.used_le f.path f.content with ⟨e, hfailed⟩ | ⟨w, hdone, heffect⟩
  · rw [hfailed]
    exact Or.inl ⟨e, rfl⟩
  rw [hdone]
  cases heffect with
  | rewritten hpath _ hfound =>
    rw [find?_eq hpath] at hnew
    exact absurd (hnew.symm.trans hfound) (by simp)
  | filed hpath _ _ hnew _ hroom =>
    let file := Entry.filled (Path.normalize f.path) f.content.length v.arena.used (v.tick + 1)
    have hfound : (v.table.insert file).find? (Path.normalize f.path) = some file := by
      rw [Table.find?_insert hnew]
      exact if_pos rfl
    have hmode : (v.table.insert file).update (Path.normalize f.path)
        (.withMode f.mode (v.tick + 1 + 1)) = (v.withFixture f).table :=
      Table.update_insert (e := file) hnew _
    refine Or.inr ⟨?_, hpath, hroom⟩
    dsimp only
    rw [setPermissions_eq_ok hpath hfound, hmode]
    rfl

theorem Sound.run_addFixtures (h : Sound limits v) (fs : List Fixture) :
    Run v (v.changesOfFixtures fs) (v.addFixtures fs).2 := by
  induction fs generalizing v with
  | nil => exact .done v
  | cons f fs ih =>
    -- The file in front is made first; whether it could be decides if the others are tried.
    have hone := h.run_addFixture f
    have hsound := h.run hone
    rw [changesOfFixtures, addFixtures]
    split
    · exact ih h
    · rcases hadded : v.addFixture f with ⟨(e | ⟨⟨⟩⟩), w⟩
      · rw [hadded] at hone
        simpa using hone
      · rw [hadded] at hone hsound
        exact hone.append (ih hsound)

/-- Seeding ends with the directories, or goes on to the files. -/
theorem seed_cases (v : Volume) :
    (∃ e w, v.addDirs skeletonDirs = (.error e, w) ∧ v.seed = (.error e, w)) ∨
      ∃ w, v.addDirs skeletonDirs = (.ok (), w) ∧ v.seed = w.addFixtures fixtures := by
  rw [seed]
  rcases hrow : v.addDirs skeletonDirs with ⟨(e | ⟨⟨⟩⟩), w⟩
  · exact Or.inl ⟨e, w, rfl, rfl⟩
  · exact Or.inr ⟨w, rfl, rfl⟩

theorem Sound.run_seed (h : Sound limits v) : Run v v.changesOfSeed v.seed.2 := by
  have hdirs := h.run_addDirs skeletonDirs
  rw [changesOfSeed]
  rcases seed_cases v with ⟨e, w, hrow, hseed⟩ | ⟨w, hrow, hseed⟩
  · rw [hrow] at hdirs ⊢
    rw [hseed, List.append_nil]
    exact hdirs
  · rw [hrow] at hdirs ⊢
    rw [hseed]
    exact hdirs.append ((h.of_addDirs hrow).run_addFixtures fixtures)

/-- The volume after a request is where the changes that it makes lead. -/
theorem Sound.run_answer (h : Sound limits v) (r : Request) :
    Run v (v.changes r) (v.answer r).2 := by
  cases r with
  | create path isDirectory => exact h.run_attempt (.create path isDirectory)
  | createDirs path => exact h.run_createDirs path
  | write path bytes => exact h.run_attempt (.write path bytes)
  | delete path => exact h.run_attempt (.delete path)
  | setPermissions path mode => exact h.run_attempt (.setPermissions path mode)
  | seed => exact h.run_seed
  | reset => exact .step (c := .reset) rfl (.done _)
  | _ => exact .done v

theorem Sound.answer (h : Sound limits v) (r : Request) : Sound limits (v.answer r).2 :=
  h.run (h.run_answer r)

/-- The volume after a list of requests is where the changes that they make lead. -/
theorem Sound.run_serve (h : Sound limits v) (rs : List Request) :
    Run v (v.history rs) (v.serve rs).2 := by
  induction rs generalizing v with
  | nil => exact .done v
  | cons r rs ih =>
    rw [history, serve_cons]
    exact (h.run_answer r).append (ih (h.answer r))

/-! ### Reachable volumes -/

theorem sound_of_reachable (h : Reachable limits v) : Sound limits v := by
  induction h with
  | start => exact sound_ofLimits limits
  | step r _ ih => exact ih.answer r

/-- Every reachable volume is where some changes to a fresh one lead. -/
theorem exists_run_of_reachable (h : Reachable limits v) :
    ∃ cs, Run (ofLimits limits) cs v := by
  induction h with
  | start => exact ⟨[], .done _⟩
  | step r hv ih =>
    obtain ⟨cs, hcs⟩ := ih
    exact ⟨_, hcs.append ((sound_of_reachable hv).run_answer r)⟩

end RamShell.Volume
