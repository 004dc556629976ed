import RamShell.Proofs.Volume.Descent
import RamShell.Proofs.Volume.Extents
import RamShell.Proofs.Volume.Stored
/-!
# RamShell.Proofs.Volume.Seeding

Seeding once and seeding again. Seeding is a row of directories and then a row of files, and it
can stop at any of them: a slot or some space may be missing, or a file stands where a directory
should be. Whether it stops or not, all that it does is add to what is there (`Extended`): entries
at the end of the table, and bytes behind the cursor.

So what was there before is there afterwards, what was made early is there when the row ends, and a
second seeding finds all of it and ends where the first one did. A file is added together with its
content and its mode (`Sound.addFixtures_cons_cases`), so none is left half made. The main statement
is `seed_can_be_repeated`.
-/

namespace RamShell.Volume

variable {limits : Limits} {v w x : Volume} {path p : String} {paths : List String} {e : Entry}
  {f : Fixture} {fs : List Fixture}

/-! ### Volumes that were only added to -/

/-- More entries at the end of the table, and more bytes behind the cursor. -/
structure Extended (v w : Volume) : Prop where
  /-- The entries are the old ones, and then others. -/
  entries : v.table.entries <+: w.table.entries
  /-- The arena has the size it had. -/
  capacity_eq : w.arena.capacity = v.arena.capacity
  /-- No space was taken back. -/
  used_le : v.arena.used ≤ w.arena.used
  /-- What had been handed out was not written to. -/
  byteAt_eq : ∀ i < v.arena.used, w.arena.byteAt i = v.arena.byteAt i

namespace Extended

theorem refl (v : Volume) : Extended v v := ⟨List.prefix_refl _, rfl, Nat.le_refl _, fun _ _ => rfl⟩

theorem trans (h : Extended v w) (h' : Extended w x) : Extended v x where
  entries := h.entries.trans h'.entries
  capacity_eq := h'.capacity_eq.trans h.capacity_eq
  used_le := h.used_le.trans h'.used_le
  byteAt_eq := by
    intro i hi
    rw [h'.byteAt_eq i (Nat.lt_of_lt_of_le hi h.used_le), h.byteAt_eq i hi]

/-- What is found is found still, with the same record. -/
theorem table_find? (h : Extended v w) (hfound : v.table.find? p = some e) :
    w.table.find? p = some e :=
  h.entries.find?_eq_some hfound

theorem find? (h : Extended v w) (hfound : v.find? path = some e) : w.find? path = some e := by
  obtain ⟨hpath, hrecord⟩ := find?_eq_some_iff.mp hfound
  exact find?_eq_some_iff.mpr ⟨hpath, h.table_find? hrecord⟩

theorem contains (h : Extended v w) (hthere : v.contains path = true) :
    w.contains path = true := by
  obtain ⟨e, hfound⟩ := Option.isSome_iff_exists.mp hthere
  exact Option.isSome_iff_exists.mpr ⟨e, h.find? hfound⟩

theorem kindAt_directory (h : Extended v w) (hthere : v.table.kindAt p = .directory) :
    w.table.kindAt p = .directory := by
  obtain ⟨e, hfound, hdir⟩ := Table.kindAt_eq_directory_iff.mp hthere
  exact Table.kindAt_eq_directory_iff.mpr ⟨e, h.table_find? hfound, hdir⟩

/-- What lies below the cursor reads as it did. -/
theorem span_eq (h : Extended v w) {offset length : Nat} (hbelow : offset + length ≤ v.arena.used) :
    w.arena.span offset length = v.arena.span offset length := by
  apply Arena.span_eq_of_byteAt
  · rw [Arena.length_span, h.capacity_eq]
  · intro i hi
    rw [Arena.length_span] at hi
    rw [Arena.getD_span, if_pos hi, h.byteAt_eq _ (by omega)]

/-- A file that lies below the cursor reads as it did. -/
theorem readAll_eq (h : Extended v w) (hfound : v.find? path = some e)
    (hfile : e.isDirectory = false) (hbelow : e.extent.offset + e.size ≤ v.arena.used) :
    w.readAll path = v.readAll path := by
  rw [readAll_of_file (h.find? hfound) hfile, readAll_of_file hfound hfile, h.span_eq hbelow]

end Extended

theorem extended_withDirs (v : Volume) (dirs : List String) : Extended v (v.withDirs dirs) where
  entries := List.prefix_append ..
  capacity_eq := rfl
  used_le := Nat.le_refl _
  byteAt_eq := fun _ _ => rfl

theorem extended_withFixture (v : Volume) (f : Fixture) : Extended v (v.withFixture f) where
  entries := List.prefix_append ..
  capacity_eq := rfl
  used_le := Nat.le_add_right ..
  byteAt_eq := by
    intro i hi
    show ((v.arena.advanced f.content.length).written v.arena.used f.content).byteAt i = _
    rw [Arena.byteAt_written, if_neg (by omega)]
    rfl

/-! ### The row of directories -/

/-- All the way down to a path there are directories. -/
structure WayDown (v : Volume) (path : String) : Prop where
  /-- The path is one. -/
  ne_empty : path ≠ ""
  /-- Each directory on the way is there. -/
  there : ∀ dir ∈ chain (Path.names path), v.table.kindAt dir = .directory

theorem Extended.wayDown (h : Extended v w) (hway : WayDown v path) : WayDown w path where
  ne_empty := hway.ne_empty
  there := fun dir hdir => h.kindAt_directory (hway.there dir hdir)

/-- A way down that is there is left as it is. -/
theorem WayDown.createDirs_eq (h : WayDown v path) : v.createDirs path = (.ok (), v) := by
  rw [Volume.createDirs_eq h.ne_empty]
  exact createMissing_of_there h.there

/-- After a way down was made it is there. -/
theorem wayDown_of_createDirs (h : v.createDirs path = (.ok (), w)) : WayDown w path := by
  have hpath : path ≠ "" := by
    rintro rfl
    exact absurd (congrArg Prod.fst h) (by simp [createDirs])
  rcases createDirs_cases v hpath with ⟨x, hx, hmade⟩ | ⟨-, -, -, e, x, -, hx, -, -⟩
  · obtain rfl : x = w := congrArg Prod.snd (hx.symm.trans h)
    exact ⟨hpath, hmade.there⟩
  · exact absurd (congrArg Prod.fst (hx.symm.trans h)) (by simp)

theorem exists_withDirs_createDirs (v : Volume) (path : String) :
    ∃ made, (∀ dir ∈ made, dir ∈ chain (Path.names path)) ∧
      (v.createDirs path).2 = v.withDirs made := by
  by_cases hpath : path = ""
  · subst hpath
    exact ⟨[], fun _ hd => absurd hd List.not_mem_nil, (withDirs_nil v).symm⟩
  rcases createDirs_cases v hpath with
    ⟨w, hw, hmade⟩ | ⟨before, stuck, after, e, w, hsplit, hw, hmade, -⟩
  · rw [hw]
    exact ⟨_, fun dir hdir => (mem_missing.mp hdir).1, hmade.eq_withDirs⟩
  · rw [hw]
    refine ⟨_, fun dir hdir => ?_, hmade.eq_withDirs⟩
    rw [hsplit]
    exact List.mem_append_left _ (mem_missing.mp hdir).1

/-- A row of directories with their parents adds directories, and they are on the ways down. -/
theorem exists_withDirs_addDirs (v : Volume) (paths : List String) :
    ∃ made, (∀ dir ∈ made, ∃ path ∈ paths, dir ∈ chain (Path.names path)) ∧
      (v.addDirs paths).2 = v.withDirs made := by
  induction paths generalizing v with
  | nil => exact ⟨[], fun _ hd => absurd hd List.not_mem_nil, (withDirs_nil v).symm⟩
  | cons path paths ih =>
    obtain ⟨front, hfront, hw⟩ := exists_withDirs_createDirs v path
    have hway : ∀ dir ∈ front, ∃ q ∈ path :: paths, dir ∈ chain (Path.names q) :=
      fun dir hdir => ⟨path, List.mem_cons_self .., hfront dir hdir⟩
    rw [addDirs]
    rcases hmade : v.createDirs path with ⟨(e | ⟨⟨⟩⟩), w⟩
    · rw [hmade] at hw
      exact ⟨front, hway, hw⟩
    · rw [hmade] at hw
      obtain ⟨rest, hrest, hx⟩ := ih w
      refine ⟨front ++ rest, fun dir hdir => ?_, ?_⟩
      · rcases List.mem_append.mp hdir with hdir | hdir
        · exact hway dir hdir
        · obtain ⟨q, hq, hon⟩ := hrest dir hdir
          exact ⟨q, List.mem_cons_of_mem _ hq, hon⟩
      · rw [← withDirs_append, ← hw]
        exact hx

theorem extended_addDirs (v : Volume) (paths : List String) :
    Extended v (v.addDirs paths).2 := by
  obtain ⟨made, -, hw⟩ := exists_withDirs_addDirs v paths
  rw [hw]
  exact extended_withDirs v made

/-- A path that is on none of the ways down names what it did. -/
theorem find?_addDirs (hpath : ∀ q ∈ paths, Path.normalize path ∉ chain (Path.names q)) :
    (v.addDirs paths).2.find? path = v.find? path := by
  by_cases hempty : path = ""
  · subst hempty
    rfl
  obtain ⟨made, hmade, hw⟩ := exists_withDirs_addDirs v paths
  have hother : Path.normalize path ∉ made := by
    intro hmem
    obtain ⟨q, hq, hon⟩ := hmade _ hmem
    exact hpath q hq hon
  rw [hw, find?_eq hempty, find?_eq hempty, find?_withDirs_of_not_mem hother]

/-- Ways down that are there are left as they are. -/
theorem addDirs_of_wayDown (h : ∀ path ∈ paths, WayDown v path) :
    v.addDirs paths = (.ok (), v) := by
  induction paths with
  | nil => rfl
  | cons path paths ih =>
    obtain ⟨hfirst, hrest⟩ := List.forall_mem_cons.mp h
    rw [addDirs, hfirst.createDirs_eq]
    exact ih hrest

/-- After a row of ways down was made, all of them are there. -/
theorem wayDown_of_addDirs (h : v.addDirs paths = (.ok (), w)) : ∀ path ∈ paths, WayDown w path := by
  induction paths generalizing v with
  | nil => exact fun _ hp => absurd hp List.not_mem_nil
  | cons path paths ih =>
    rw [addDirs] at h
    rcases hmade : v.createDirs path with ⟨(e | ⟨⟨⟩⟩), y⟩
    · rw [hmade] at h
      exact absurd (congrArg Prod.fst h) (by simp)
    · rw [hmade] at h
      have hrow : (y.addDirs paths).2 = w := congrArg Prod.snd h
      have hextended := hrow ▸ extended_addDirs y paths
      rw [List.forall_mem_cons]
      exact ⟨hextended.wayDown (wayDown_of_createDirs hmade), ih h⟩

/-- A row of directories made a second time changes nothing, and is answered the same. -/
theorem addDirs_twice (v : Volume) (paths : List String) :
    (v.addDirs paths).2.addDirs paths = v.addDirs paths := by
  induction paths generalizing v with
  | nil => rfl
  | cons path paths ih =>
    rcases hmade : v.createDirs path with ⟨(e | ⟨⟨⟩⟩), w⟩
    · have hrow : v.addDirs (path :: paths) = (.error e, w) := by rw [addDirs, hmade]
      have hagain : w.createDirs path = (.error e, w) := by
        have htwice := createDirs_twice v path
        rwa [hmade] at htwice
      rw [hrow, addDirs, hagain]
    · have hrow : v.addDirs (path :: paths) = w.addDirs paths := by rw [addDirs, hmade]
      have hway := (extended_addDirs w paths).wayDown (wayDown_of_createDirs hmade)
      rw [hrow, addDirs, hway.createDirs_eq]
      exact ih w

/-! ### The row of files -/

/-- A file of the row is passed if its path is taken, or added as a whole, or the row ends at it. -/
theorem Sound.addFixtures_cons_cases (h : Sound limits v) (f : Fixture) (fs : List Fixture) :
    (v.contains f.path = true ∧ v.addFixtures (f :: fs) = v.addFixtures fs) ∨
      (v.find? f.path = none ∧ f.path ≠ "" ∧ f.content.length ≤ v.arena.free ∧
        Sound limits (v.withFixture f) ∧
        v.addFixtures (f :: fs) = (v.withFixture f).addFixtures fs) ∨
      (v.find? f.path = none ∧ ∃ e, v.addFixtures (f :: fs) = (.error e, v)) := by
  rw [addFixtures]
  by_cases hthere : v.contains f.path = true
  · exact Or.inl ⟨hthere, if_pos hthere⟩
  have hnew : v.find? f.path = none := by simpa [contains] using hthere
  rw [if_neg hthere]
  rcases h.addFixture_cases hnew with ⟨e, hfailed⟩ | ⟨hdone, hpath, hroom⟩
  · exact Or.inr (Or.inr ⟨hnew, e, by rw [hfailed]⟩)
  · have hsound := h.run (h.run_addFixture f)
    rw [hdone] at hsound ⊢
    exact Or.inr (Or.inl ⟨hnew, hpath, hroom, hsound, rfl⟩)

/-- What is found after a file was added. -/
theorem find?_withFixture (hnew : v.find? f.path = none) (hfile : f.path ≠ "") (hpath : path ≠ "") :
    (v.withFixture f).find? path =
      if Path.normalize path = Path.normalize f.path then
        some ((Entry.filled (Path.normalize f.path) f.content.length v.arena.used
          (v.tick + 1)).withMode f.mode (v.tick + 2))
      else v.find? path := by
  rw [find?_eq hfile] at hnew
  rw [find?_eq hpath, find?_eq hpath]
  exact Table.find?_insert hnew (Path.normalize path)

theorem Sound.extended_addFixtures (h : Sound limits v) (fs : List Fixture) :
    Extended v (v.addFixtures fs).2 := by
  induction fs generalizing v with
  | nil => exact .refl v
  | cons f fs ih =>
    rcases h.addFixtures_cons_cases f fs with
      ⟨-, hrow⟩ | ⟨-, -, -, hsound, hrow⟩ | ⟨-, e, hrow⟩
    · rw [hrow]
      exact ih h
    · rw [hrow]
      exact (extended_withFixture v f).trans (ih hsound)
    · rw [hrow]
      exact .refl v

theorem contains_withFixture (hnew : v.find? f.path = none) (hfile : f.path ≠ "") :
    (v.withFixture f).contains f.path = true := by
  rw [contains, find?_withFixture hnew hfile hfile, if_pos rfl]
  rfl

/-- A row of files that was made to its end is there. -/
theorem Sound.contains_of_addFixtures (h : Sound limits v) (hok : (v.addFixtures fs).1 = .ok ()) :
    ∀ f ∈ fs, (v.addFixtures fs).2.contains f.path = true := by
  induction fs generalizing v with
  | nil => exact fun _ hf => absurd hf List.not_mem_nil
  | cons f fs ih =>
    rw [List.forall_mem_cons]
    rcases h.addFixtures_cons_cases f fs with
      ⟨hthere, hrow⟩ | ⟨hnew, hpath, -, hsound, hrow⟩ | ⟨-, e, hrow⟩
    · rw [hrow] at hok ⊢
      exact ⟨(h.extended_addFixtures fs).contains hthere, ih h hok⟩
    · rw [hrow] at hok ⊢
      exact ⟨(hsound.extended_addFixtures fs).contains (contains_withFixture hnew hpath),
        ih hsound hok⟩
    · rw [hrow] at hok
      exact absurd hok (by simp)

/-- A row of files made a second time changes nothing, and is answered the same. -/
theorem Sound.addFixtures_twice (h : Sound limits v) (fs : List Fixture) :
    (v.addFixtures fs).2.addFixtures fs = v.addFixtures fs := by
  induction fs generalizing v with
  | nil => rfl
  | cons f fs ih =>
    have hpassed : ∀ {w : Volume}, w.contains f.path = true →
        w.addFixtures (f :: fs) = w.addFixtures fs := fun hthere => by
      rw [addFixtures, if_pos hthere]
    rcases h.addFixtures_cons_cases f fs with
      ⟨hthere, hrow⟩ | ⟨hnew, hpath, -, hsound, hrow⟩ | ⟨-, e, hrow⟩
    · rw [hrow, hpassed ((h.extended_addFixtures fs).contains hthere)]
      exact ih h
    · have hmade := contains_withFixture hnew hpath
      rw [hrow, hpassed ((hsound.extended_addFixtures fs).contains hmade)]
      exact ih hsound
    · rw [hrow]
      exact hrow

/-! ### Files as they were made -/

/-- A file of the first boot that is there with all its content, below the cursor, and with its
mode. -/
structure Filed (v : Volume) (f : Fixture) (e : Entry) : Prop where
  /-- The file is there. -/
  found : v.find? f.path = some e
  /-- It is a file. -/
  isFile : e.isDirectory = false
  /-- It has its mode. -/
  permissions_eq : e.permissions = .ofMode f.mode
  /-- Its content lies where space was handed out. -/
  below : e.extent.offset + e.size ≤ v.arena.used
  /-- Its content is whole. -/
  content_eq : v.arena.span e.extent.offset e.size = f.content

theorem Filed.readAll_eq (h : Filed v f e) : v.readAll f.path = .ok f.content := by
  rw [readAll_of_file h.found h.isFile, h.content_eq]

theorem Extended.filed (h : Extended v w) (hfiled : Filed v f e) : Filed w f e where
  found := h.find? hfiled.found
  isFile := hfiled.isFile
  permissions_eq := hfiled.permissions_eq
  below := hfiled.below.trans h.used_le
  content_eq := (h.span_eq hfiled.below).trans hfiled.content_eq

theorem Sound.filed_withFixture (h : Sound limits v) (hnew : v.find? f.path = none)
    (hpath : f.path ≠ "") (hroom : f.content.length ≤ v.arena.free) :
    ∃ e, Filed (v.withFixture f) f e := by
  have hfound := find?_withFixture hnew hpath hpath
  rw [if_pos rfl] at hfound
  have hfit : v.arena.used + f.content.length ≤
      (v.arena.advanced f.content.length).capacity := by
    rw [Arena.advanced_capacity]
    exact h.capacity_eq ▸ h.fits_of_room hroom
  exact ⟨_, hfound, rfl, rfl, Nat.le_refl _, Arena.span_written hfit⟩

/-- A file of the row that was not there before is not made, or made as a whole. -/
theorem Sound.filed_addFixtures (h : Sound limits v)
    (hdistinct : (fs.map fun f => Path.normalize f.path).Nodup) (hf : f ∈ fs)
    (hnew : v.find? f.path = none) :
    (v.addFixtures fs).2.find? f.path = none ∨ ∃ e, Filed (v.addFixtures fs).2 f e := by
  induction fs generalizing v with
  | nil => exact absurd hf List.not_mem_nil
  | cons g fs ih =>
    obtain ⟨hg, hrest⟩ := List.nodup_cons.mp hdistinct
    rcases h.addFixtures_cons_cases g fs with
      ⟨hthere, hrow⟩ | ⟨hgnew, hpath, hroom, hsound, hrow⟩ | ⟨-, e, hrow⟩
    · rw [hrow]
      rcases List.mem_cons.mp hf with rfl | hf
      · exact absurd hthere (by simp [contains, hnew])
      · exact ih h hrest hf hnew
    · rw [hrow]
      rcases List.mem_cons.mp hf with rfl | hf
      · obtain ⟨e, hfiled⟩ := h.filed_withFixture hgnew hpath hroom
        exact Or.inr ⟨e, (hsound.extended_addFixtures fs).filed hfiled⟩
      · -- The file in front has another path, so this one is missing still.
        refine ih hsound hrest hf ?_
        by_cases hempty : f.path = ""
        · rw [hempty]
          rfl
        · have hne : Path.normalize f.path ≠ Path.normalize g.path := by
            intro heq
            exact hg (List.mem_map.mpr ⟨f, hf, heq⟩)
          rw [find?_withFixture hgnew hpath hempty, if_neg hne, hnew]
    · rw [hrow]
      exact Or.inl hnew

/-! ### Seeding -/

theorem Sound.extended_seed (h : Sound limits v) : Extended v v.seed.2 := by
  have hdirs := extended_addDirs v skeletonDirs
  rcases seed_cases v with ⟨e, w, hrow, hseed⟩ | ⟨w, hrow, hseed⟩
  · rw [hseed]
    rwa [hrow] at hdirs
  · rw [hseed]
    rw [hrow] at hdirs
    exact hdirs.trans ((h.of_addDirs hrow).extended_addFixtures fixtures)

/-- Seeding a second time changes nothing, and is answered the same. -/
theorem Sound.seed_twice (h : Sound limits v) : v.seed.2.seed = v.seed := by
  rcases seed_cases v with ⟨e, w, hrow, hseed⟩ | ⟨w, hrow, hseed⟩
  · have htwice := addDirs_twice v skeletonDirs
    rw [hrow] at htwice
    rw [hseed]
    show w.seed = _
    rw [seed, htwice]
  · have hsound := h.of_addDirs hrow
    have hpassed : (w.addFixtures fixtures).2.addDirs skeletonDirs =
        (.ok (), (w.addFixtures fixtures).2) :=
      addDirs_of_wayDown fun path hpath =>
        (hsound.extended_addFixtures fixtures).wayDown (wayDown_of_addDirs hrow path hpath)
    rw [hseed, seed, hpassed]
    exact hsound.addFixtures_twice fixtures

/-- No file of the first boot stands on the way down to a standard directory. -/
theorem fixture_not_on_way : ∀ f ∈ fixtures, ∀ path ∈ skeletonDirs,
    Path.normalize f.path ∉ chain (Path.names path) := by decide

theorem Sound.filed_seed (h : Sound limits v) (hf : f ∈ fixtures) (hnew : v.find? f.path = none) :
    v.seed.2.find? f.path = none ∨ ∃ e, Filed v.seed.2 f e := by
  have hdirs := (find?_addDirs (v := v) (fixture_not_on_way f hf)).trans hnew
  rcases seed_cases v with ⟨e, w, hrow, hseed⟩ | ⟨w, hrow, hseed⟩
  · rw [hseed]
    rw [hrow] at hdirs
    exact Or.inl hdirs
  · rw [hseed]
    rw [hrow] at hdirs
    exact (h.of_addDirs hrow).filed_addFixtures (by decide) hf hdirs

theorem Sound.there_of_seed (h : Sound limits v) (hok : v.seed.1 = .ok ()) :
    (∀ path ∈ skeletonDirs, WayDown v.seed.2 path) ∧
      ∀ f ∈ fixtures, v.seed.2.contains f.path = true := by
  rcases seed_cases v with ⟨e, w, -, hseed⟩ | ⟨w, hrow, hseed⟩
  · rw [hseed] at hok
    exact absurd hok (by simp)
  · have hsound := h.of_addDirs hrow
    rw [hseed] at hok ⊢
    exact ⟨fun path hpath =>
        (hsound.extended_addFixtures fixtures).wayDown (wayDown_of_addDirs hrow path hpath),
      hsound.contains_of_addFixtures hok⟩

/-! ### Every reachable volume -/

/-- In every reachable volume, seeding a second time is answered as the first time and leaves the
volume exactly as it is, also if seeding fails. Every entry that was there stays where it is in the
table and is found with the same record, and in a volume that relocates every file keeps its
content. A file of the first boot that was not there is missing still or has all its content and its
mode. If seeding succeeds, every standard directory is there and every standard file's path is
taken. -/
theorem seed_can_be_repeated (h : Reachable limits v) :
    let s := v.seed.2
    s.seed = v.seed ∧
    v.table.entries <+: s.table.entries ∧
    (∀ path e, v.find? path = some e → s.find? path = some e) ∧
    (limits.growth = .relocate →
      ∀ path bytes, v.readAll path = .ok bytes → s.readAll path = .ok bytes) ∧
    (∀ f ∈ fixtures, v.find? f.path = none → ∀ e, s.find? f.path = some e →
      e.isDirectory = false ∧ e.permissions.bits = f.mode ∧ s.readAll f.path = .ok f.content) ∧
    (v.seed.1 = .ok () →
      (∀ dir ∈ skeletonDirs, s.kindAt dir = .directory) ∧
      ∀ f ∈ fixtures, s.contains f.path = true) := by
  intro s
  have hs := sound_of_reachable h
  have hextended : Extended v s := hs.extended_seed
  refine ⟨hs.seed_twice, hextended.entries, fun _ _ => hextended.find?, ?_, ?_, ?_⟩
  · intro hpolicy path bytes hread
    obtain ⟨e, hfound, hfile⟩ := file_of_readAll hread
    have hmem := mem_of_find?_eq_some hfound
    have hsize := (hs.entries e hmem).size_le_length
    have hstop := (laid_of_reachable hpolicy h).below e hmem
    rw [hextended.readAll_eq hfound hfile ((Nat.add_le_add_left hsize _).trans hstop), hread]
  · intro f hf hnew e hfound
    have hmode : ∀ f ∈ fixtures, (Permissions.ofMode f.mode).bits = f.mode := by decide
    rcases hs.filed_seed hf hnew with hmissing | ⟨e', hfiled⟩
    · exact absurd (hmissing.symm.trans hfound) (by simp)
    · obtain rfl : e' = e := Option.some.inj (hfiled.found.symm.trans hfound)
      exact ⟨hfiled.isFile, hfiled.permissions_eq ▸ hmode f hf, hfiled.readAll_eq⟩
  · intro hok
    obtain ⟨hways, hfiles⟩ := hs.there_of_seed hok
    refine ⟨fun dir hdir => ?_, hfiles⟩
    -- The way down to a standard directory ends at the directory.
    have hlast : ∀ dir ∈ skeletonDirs, Path.Canonical dir ∧ dir ∈ chain (Path.names dir) := by
      decide
    obtain ⟨hcanonical, hon⟩ := hlast dir hdir
    rw [kindAt_of_canonical hcanonical]
    exact (hways dir hdir).there dir hon

/-- A seeding stops at a file that is too large, behind one that it made and a directory that has
the path of another. Once a smaller file is there, it goes on to the last file of all. -/
theorem seeding_that_stops_and_goes_on :
    let v := ((ofLimits ⟨32, 70, 512, 16, .relocate⟩).serve
      [.write "/welcome.txt" [1], .write "readme.txt" [2], .create "/etc/motd" true]).2
    let w := (v.serve [.seed, .write "/etc/passwd" [3]]).2
    v.seed.1 = .error .tooLarge ∧ v.seed.2.seed = v.seed ∧
      v.seed.2.readAll "readme.txt" = .ok [2] ∧
      v.seed.2.readAll "/etc/version" =
        .ok (Fixture.content ⟨"/etc/version", versionLines, 0o644⟩) ∧
      w.seed.1 = .ok () ∧ w.seed.2.kindAt "/home/user" = .directory ∧
      ∃ e, w.seed.2.find? "/etc/shadow" = some e ∧ e.permissions.bits = 0o600 := by
  intro v w
  have hv : Reachable ⟨32, 70, 512, 16, .relocate⟩ v := Reachable.serve .start _
  have hw : Reachable ⟨32, 70, 512, 16, .relocate⟩ w := Reachable.serve hv _
  obtain ⟨hagain, -, -, hkept, hversion, -⟩ := seed_can_be_repeated hv
  obtain ⟨-, -, -, -, hshadow, hthere⟩ := seed_can_be_repeated hw
  have hdone : w.seed.1 = .ok () := by decide +kernel
  obtain ⟨hdirs, hfiles⟩ := hthere hdone
  have hmade : v.seed.2.contains "/etc/version" = true := by decide +kernel
  obtain ⟨e, he⟩ := Option.isSome_iff_exists.mp hmade
  have hfirst : (⟨"/etc/version", versionLines, 0o644⟩ : Fixture) ∈ fixtures := by decide
  have hlast : (⟨"/etc/shadow", shadowLines, 0o600⟩ : Fixture) ∈ fixtures := by decide
  obtain ⟨d, hd⟩ := Option.isSome_iff_exists.mp (hfiles _ hlast)
  exact ⟨by decide +kernel, hagain, hkept rfl _ _ (by decide),
    (hversion _ hfirst (by decide) e he).2.2, hdone, hdirs "/home/user" (by decide),
    d, hd, (hshadow _ hlast (by decide +kernel) d hd).2.1⟩

end RamShell.Volume
