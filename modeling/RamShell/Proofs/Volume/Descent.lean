import RamShell.Proofs.Volume.Refusal
import RamShell.Proofs.Volume.Rooted
/-!
# RamShell.Proofs.Volume.Descent

How a directory is made with its parents. The way down to it is a row of directories, the first
one in the root and each of the others in the one before it. In a table where an entry may be there
without its parents, any of them can be missing and any can be a file.

The row is gone through one by one. A directory that is there is passed, one that is missing is
added at the end of the table, and the first that can be neither passed nor added ends the row
(`createMissing_cons_cases`). So what becomes of the row is known from how far it got (`Made`), and
going through it again passes all that was made and ends at the same place. The main statement is
`createDirs_adds_missing_directories`.
-/

namespace RamShell.Volume

variable {limits : Limits} {v w : Volume} {path p dir stuck : String} {dirs before after : List String}
  {e : Entry} {err : Error}

/-! ### Directories at the end of the table -/

/-- The volume with empty directories added at the end, in order and each with a tick of its
own. -/
def withDirs (v : Volume) (dirs : List String) : Volume :=
  { v with
    table :=
      { v.table with
        entries := v.table.entries ++
          dirs.mapIdx fun i dir => .empty dir true v.arena.used (v.tick + (i + 1)) }
    tick := v.tick + dirs.length }

@[simp] theorem withDirs_nil (v : Volume) : v.withDirs [] = v := by
  simp [withDirs]

/-- A row of directories is the first one and then the others. -/
theorem withDirs_cons (v : Volume) (dir : String) (dirs : List String) :
    v.withDirs (dir :: dirs) = (v.withDirs [dir]).withDirs dirs := by
  have htick (i : Nat) : v.tick + (i + 1 + 1) = v.tick + 1 + (i + 1) := by omega
  have hlength : v.tick + (dirs.length + 1) = v.tick + 1 + dirs.length := by omega
  simp only [withDirs, List.mapIdx_cons, List.mapIdx_nil, List.append_assoc, List.singleton_append,
    List.length_cons, List.length_nil, Nat.zero_add, htick, hlength]

theorem withDirs_append (v : Volume) (dirs more : List String) :
    (v.withDirs dirs).withDirs more = v.withDirs (dirs ++ more) := by
  induction dirs generalizing v with
  | nil => rw [withDirs_nil, List.nil_append]
  | cons dir dirs ih => rw [withDirs_cons, ih, List.cons_append, ← withDirs_cons]

/-- What is found is found still when more directories stand behind it. -/
theorem find?_withDirs_of_found (hfound : v.table.find? p = some e) (dirs : List String) :
    (v.withDirs dirs).table.find? p = some e := by
  show (v.table.entries ++ _).find? _ = _
  rw [List.find?_append, show v.table.entries.find? (·.path == p) = some e from hfound]
  rfl

/-- A path that none of the added directories has names what it did. -/
theorem find?_withDirs_of_not_mem (hp : p ∉ dirs) :
    (v.withDirs dirs).table.find? p = v.table.find? p := by
  have hnone : (dirs.mapIdx fun i dir =>
      Entry.empty dir true v.arena.used (v.tick + (i + 1))).find? (·.path == p) = none := by
    rw [List.find?_eq_none]
    intro d hd
    obtain ⟨i, hi, rfl⟩ := List.mem_mapIdx.mp hd
    have hne : dirs[i] ≠ p := fun h => hp (h ▸ List.getElem_mem hi)
    simpa using hne
  show (v.table.entries ++ _).find? _ = _
  rw [List.find?_append, hnone, Option.or_none]
  rfl

theorem kindAt_withDirs_of_directory (hthere : v.table.kindAt p = .directory) (dirs : List String) :
    (v.withDirs dirs).table.kindAt p = .directory := by
  obtain ⟨e, hfound, hdir⟩ := Table.kindAt_eq_directory_iff.mp hthere
  exact Table.kindAt_eq_directory_iff.mpr ⟨e, find?_withDirs_of_found hfound dirs, hdir⟩

/-- A directory that was added where nothing was is there. -/
theorem kindAt_withDirs_singleton (hmissing : v.table.kindAt dir = .unknown) :
    (v.withDirs [dir]).table.kindAt dir = .directory := by
  have hnew := Table.kindAt_eq_unknown_iff.mp hmissing
  have hkind := Table.kindAt_insert (e := .empty dir true v.arena.used (v.tick + 1)) hnew dir
  exact hkind.trans (if_pos rfl)

/-! ### One directory of a row -/

/-- Why a row of directories ends at one of them. -/
inductive Stuck (v : Volume) (dir : String) : Error → Prop
  /-- A file is there. -/
  | file (hfile : v.table.kindAt dir = .file) : Stuck v dir .notADirectory
  /-- Nothing is there, and the path is too long. -/
  | long (hmissing : v.table.kindAt dir = .unknown)
      (hlong : v.table.maxPathLength < dir.utf8ByteSize) : Stuck v dir .pathTooLong
  /-- Nothing is there, the path is short enough, and no slot is free. -/
  | full (hmissing : v.table.kindAt dir = .unknown)
      (hshort : dir.utf8ByteSize ≤ v.table.maxPathLength)
      (hfull : v.table.capacity ≤ v.table.entries.length) : Stuck v dir .tableFull

/-- A directory that is there is passed. -/
theorem createMissing_cons_of_directory (hthere : v.table.kindAt dir = .directory) :
    v.createMissing (dir :: dirs) = v.createMissing dirs := by
  obtain ⟨e, hfound, hdir⟩ := Table.kindAt_eq_directory_iff.mp hthere
  rw [createMissing, hfound]
  exact if_pos hdir

/-- A directory that is missing is made, and then the others. -/
theorem createMissing_cons_of_create (hmissing : v.table.kindAt dir = .unknown)
    (hmade : v.create dir true = (.ok (), w)) :
    v.createMissing (dir :: dirs) = w.createMissing dirs := by
  simp only [createMissing, Table.kindAt_eq_unknown_iff.mp hmissing, hmade]

/-- If it cannot be made, the row ends. -/
theorem createMissing_cons_of_create_error (hmissing : v.table.kindAt dir = .unknown)
    (hrefused : v.create dir true = (.error err, v)) :
    v.createMissing (dir :: dirs) = (.error err, v) := by
  simp only [createMissing, Table.kindAt_eq_unknown_iff.mp hmissing, hrefused]

theorem create_of_table_error (hdir : Path.Canonical dir) {isDirectory : Bool}
    (h : v.table.create dir isDirectory v.arena.used (v.tick + 1) = (.error err, v.table)) :
    v.create dir isDirectory = (.error err, v) := by
  have hkey := ((keyOf_cases dir).resolve_left fun hempty => hdir.ne_empty hempty.1).2
  rw [hdir] at hkey
  simp only [create, hkey, h]

theorem createMissing_cons_of_stuck (hdir : Path.Canonical dir) (h : Stuck v dir err) :
    v.createMissing (dir :: dirs) = (.error err, v) := by
  have hempty : ¬ dir.isEmpty = true := by simpa using hdir.ne_empty
  cases h with
  | file hthere =>
    obtain ⟨e, hfound, hfile⟩ := Table.kindAt_eq_file_iff.mp hthere
    rw [createMissing, hfound]
    exact if_neg (by simp [hfile])
  | long hmissing hlong =>
    have hrefused : v.table.create dir true v.arena.used (v.tick + 1) =
        (.error .pathTooLong, v.table) := by
      rw [Table.create, if_neg hempty, if_pos hlong]
    exact createMissing_cons_of_create_error hmissing (create_of_table_error hdir hrefused)
  | full hmissing hshort hfull =>
    have hnew : ¬ v.table.contains dir = true := by
      simp [Table.contains, Table.kindAt_eq_unknown_iff.mp hmissing]
    have hslots : v.table.isFull = true := decide_eq_true hfull
    have hrefused : v.table.create dir true v.arena.used (v.tick + 1) =
        (.error .tableFull, v.table) := by
      rw [Table.create, if_neg hempty, if_neg (Nat.not_lt.mpr hshort), if_neg hnew, if_pos hslots]
    exact createMissing_cons_of_create_error hmissing (create_of_table_error hdir hrefused)

/-- A directory of a row is passed, or added, or the row ends at it. -/
theorem createMissing_cons_cases (v : Volume) (hdir : Path.Canonical dir) (dirs : List String) :
    (v.table.kindAt dir = .directory ∧
        v.createMissing (dir :: dirs) = v.createMissing dirs) ∨
      (v.table.kindAt dir = .unknown ∧
        v.createMissing (dir :: dirs) = (v.withDirs [dir]).createMissing dirs) ∨
      ∃ err, Stuck v dir err ∧ v.createMissing (dir :: dirs) = (.error err, v) := by
  cases hkind : v.table.kindAt dir with
  | directory => exact Or.inl ⟨rfl, createMissing_cons_of_directory hkind⟩
  | file => exact Or.inr (Or.inr ⟨_, .file hkind, createMissing_cons_of_stuck hdir (.file hkind)⟩)
  | unknown =>
    right
    by_cases hlong : v.table.maxPathLength < dir.utf8ByteSize
    · have hstuck := Stuck.long hkind hlong
      exact Or.inr ⟨_, hstuck, createMissing_cons_of_stuck hdir hstuck⟩
    have hshort := Nat.le_of_not_lt hlong
    by_cases hfull : v.table.capacity ≤ v.table.entries.length
    · have hstuck := Stuck.full hkind hshort hfull
      exact Or.inr ⟨_, hstuck, createMissing_cons_of_stuck hdir hstuck⟩
    have hnew := Table.kindAt_eq_unknown_iff.mp hkind
    have hmade : v.create dir true = (.ok (), v.withDirs [dir]) := by
      have hok := create_eq_ok (v := v) hdir.ne_empty (by rwa [hdir]) (by rwa [hdir])
        (Nat.lt_of_not_le hfull) true
      rw [hdir] at hok
      exact hok
    exact Or.inl ⟨rfl, createMissing_cons_of_create hkind hmade⟩

/-! ### The whole row -/

/-- Those of some directories that do not exist. -/
def missing (v : Volume) (dirs : List String) : List String :=
  dirs.filter fun dir => v.table.kindAt dir = .unknown

theorem mem_missing : dir ∈ v.missing dirs ↔ dir ∈ dirs ∧ v.table.find? dir = none := by
  rw [missing, List.mem_filter, decide_eq_true_iff, Table.kindAt_eq_unknown_iff]

theorem missing_cons_of_directory (hthere : v.table.kindAt dir = .directory) :
    v.missing (dir :: dirs) = v.missing dirs :=
  List.filter_cons_of_neg (by simp [hthere])

theorem missing_cons_of_missing (hmissing : v.table.kindAt dir = .unknown) :
    v.missing (dir :: dirs) = dir :: v.missing dirs :=
  List.filter_cons_of_pos (by simp [hmissing])

/-- Directories added elsewhere leave others missing. -/
theorem missing_withDirs_singleton (hdir : dir ∉ dirs) :
    (v.withDirs [dir]).missing dirs = v.missing dirs := by
  apply List.filter_congr
  intro d hd
  have hne : d ∉ [dir] := by
    rw [List.mem_singleton]
    rintro rfl
    exact hdir hd
  rw [Table.kindAt, find?_withDirs_of_not_mem hne, Table.kindAt]

/-- What became of some directories: all of them are there, and those that were missing are at the
end of the table. -/
structure Made (v : Volume) (dirs : List String) (w : Volume) : Prop where
  /-- All are directories. -/
  there : ∀ dir ∈ dirs, w.table.kindAt dir = .directory
  /-- The missing ones were added, and nothing else happened. -/
  eq_withDirs : w = v.withDirs (v.missing dirs)

theorem made_nil (v : Volume) : Made v [] v where
  there := fun _ hd => absurd hd List.not_mem_nil
  eq_withDirs := (withDirs_nil v).symm

theorem Made.cons_of_directory (h : Made v dirs w) (hthere : v.table.kindAt dir = .directory) :
    Made v (dir :: dirs) w where
  there := by
    rw [List.forall_mem_cons, h.eq_withDirs]
    exact ⟨kindAt_withDirs_of_directory hthere _, h.eq_withDirs ▸ h.there⟩
  eq_withDirs := by
    rw [missing_cons_of_directory hthere]
    exact h.eq_withDirs

theorem Made.cons_of_missing (h : Made (v.withDirs [dir]) dirs w) (hdir : dir ∉ dirs)
    (hmissing : v.table.kindAt dir = .unknown) : Made v (dir :: dirs) w where
  there := by
    have hmade := kindAt_withDirs_singleton hmissing
    rw [List.forall_mem_cons, h.eq_withDirs]
    exact ⟨kindAt_withDirs_of_directory hmade _, h.eq_withDirs ▸ h.there⟩
  eq_withDirs := by
    have hw := h.eq_withDirs
    rw [missing_withDirs_singleton hdir] at hw
    rw [missing_cons_of_missing hmissing, withDirs_cons, hw]

/-- A row of directories is made as a whole, or up to the first one that cannot be made. -/
theorem createMissing_cases (hdirs : ∀ d ∈ dirs, Path.Canonical d) (hnodup : dirs.Nodup) :
    (∃ w, v.createMissing dirs = (.ok (), w) ∧ Made v dirs w) ∨
      ∃ before stuck after err w, dirs = before ++ stuck :: after ∧
        v.createMissing dirs = (.error err, w) ∧ Made v before w ∧ Stuck w stuck err := by
  induction dirs generalizing v with
  | nil => exact Or.inl ⟨v, rfl, made_nil v⟩
  | cons dir dirs ih =>
    obtain ⟨hdir, hrest⟩ := List.forall_mem_cons.mp hdirs
    obtain ⟨hnew, hnodup⟩ := List.nodup_cons.mp hnodup
    rcases createMissing_cons_cases v hdir dirs with
      ⟨hthere, hstep⟩ | ⟨hmissing, hstep⟩ | ⟨err, hstuck, hstep⟩
    · rcases ih (v := v) hrest hnodup with
        ⟨w, hw, hmade⟩ | ⟨before, stuck, after, err, w, hsplit, hw, hmade, hstuck⟩
      · exact Or.inl ⟨w, hstep.trans hw, hmade.cons_of_directory hthere⟩
      · exact Or.inr ⟨dir :: before, stuck, after, err, w, by rw [hsplit]; rfl, hstep.trans hw,
          hmade.cons_of_directory hthere, hstuck⟩
    · rcases ih (v := v.withDirs [dir]) hrest hnodup with
        ⟨w, hw, hmade⟩ | ⟨before, stuck, after, err, w, hsplit, hw, hmade, hstuck⟩
      · exact Or.inl ⟨w, hstep.trans hw, hmade.cons_of_missing hnew hmissing⟩
      · have hfront : dir ∉ before := by
          intro hmem
          rw [hsplit] at hnew
          exact hnew (List.mem_append_left _ hmem)
        exact Or.inr ⟨dir :: before, stuck, after, err, w, by rw [hsplit]; rfl, hstep.trans hw,
          hmade.cons_of_missing hfront hmissing, hstuck⟩
    · exact Or.inr ⟨[], dir, dirs, err, v, rfl, hstep, made_nil v, hstuck⟩

/-- Directories that are there are passed. -/
theorem createMissing_append_of_there (hthere : ∀ d ∈ before, v.table.kindAt d = .directory) :
    v.createMissing (before ++ dirs) = v.createMissing dirs := by
  induction before with
  | nil => rfl
  | cons dir before ih =>
    obtain ⟨hdir, hrest⟩ := List.forall_mem_cons.mp hthere
    rw [List.cons_append, createMissing_cons_of_directory hdir, ih hrest]

theorem createMissing_of_there (hthere : ∀ d ∈ dirs, v.table.kindAt d = .directory) :
    v.createMissing dirs = (.ok (), v) := by
  have hall : v.createMissing (dirs ++ []) = v.createMissing [] :=
    createMissing_append_of_there hthere
  rwa [List.append_nil] at hall

/-- A row gone through again ends at the same place, and nothing is made any more. -/
theorem createMissing_twice (hdirs : ∀ d ∈ dirs, Path.Canonical d) (hnodup : dirs.Nodup) :
    (v.createMissing dirs).2.createMissing dirs = v.createMissing dirs := by
  rcases createMissing_cases (v := v) hdirs hnodup with
    ⟨w, hw, hmade⟩ | ⟨before, stuck, after, err, w, rfl, hw, hmade, hstuck⟩
  · rw [hw]
    exact createMissing_of_there hmade.there
  · rw [hw]
    show w.createMissing (before ++ stuck :: after) = _
    rw [createMissing_append_of_there hmade.there]
    exact createMissing_cons_of_stuck (hdirs stuck (by simp)) hstuck

/-! ### Directories with their parents -/

/-- The directories on the way to a path are distinct: each has one name more than the last. -/
theorem nodup_chain {ns : List Path.Name} (hns : ∀ n ∈ ns, Path.Proper n) : (chain ns).Nodup := by
  refine List.Nodup.map_on ?_ List.nodup_range
  intro i hi j hj heq
  have htake := Path.ofNames_injective (fun n hn => hns n (List.mem_of_mem_take hn))
    (fun n hn => hns n (List.mem_of_mem_take hn)) heq
  have hlength := congrArg List.length htake
  rw [List.mem_range] at hi hj
  rw [List.length_take, List.length_take] at hlength
  omega

theorem canonical_of_mem_chain_names (hdir : dir ∈ chain (Path.names path)) : Path.Canonical dir :=
  canonical_of_mem_chain (Path.proper_names path) hdir

theorem createDirs_eq (hpath : path ≠ "") :
    v.createDirs path = v.createMissing (chain (Path.names path)) := by
  have hkey := ((keyOf_cases path).resolve_left fun h => hpath h.1).2
  simp only [createDirs, hkey, Path.names_normalize]

/-- The way down is made as a whole, or up to the first directory that cannot be made. -/
theorem createDirs_cases (v : Volume) (hpath : path ≠ "") :
    (∃ w, v.createDirs path = (.ok (), w) ∧ Made v (chain (Path.names path)) w) ∨
      ∃ before stuck after err w, chain (Path.names path) = before ++ stuck :: after ∧
        v.createDirs path = (.error err, w) ∧ Made v before w ∧ Stuck w stuck err := by
  rw [createDirs_eq hpath]
  exact createMissing_cases (fun _ hd => canonical_of_mem_chain_names hd)
    (nodup_chain (Path.proper_names path))

/-- The directory at which the way down ends was not among those that were made. -/
theorem find?_stuck (hsplit : chain (Path.names path) = before ++ stuck :: after) :
    (v.withDirs (v.missing before)).table.find? stuck = v.table.find? stuck := by
  have hnodup := nodup_chain (Path.proper_names path)
  rw [hsplit] at hnodup
  apply find?_withDirs_of_not_mem
  intro hmem
  have hbefore := (mem_missing.mp hmem).1
  exact (List.nodup_append.mp hnodup).2.2 stuck hbefore stuck (List.mem_cons_self ..) rfl

/-- Making a directory with its parents a second time changes nothing, and is answered the same. -/
theorem createDirs_twice (v : Volume) (path : String) :
    (v.createDirs path).2.createDirs path = v.createDirs path := by
  by_cases hpath : path = ""
  · subst hpath
    rfl
  · rw [createDirs_eq hpath, createDirs_eq hpath]
    exact createMissing_twice (fun _ hd => canonical_of_mem_chain_names hd)
      (nodup_chain (Path.proper_names path))

namespace Stuck

theorem eq_notADirectory_iff (h : Stuck v dir err) :
    err = .notADirectory ↔ v.table.kindAt dir = .file := by
  cases h with
  | file hfile => simp [hfile]
  | long hmissing => simp [hmissing]
  | full hmissing => simp [hmissing]

theorem eq_pathTooLong_iff (h : Stuck v dir err) :
    err = .pathTooLong ↔
      v.table.kindAt dir = .unknown ∧ v.table.maxPathLength < dir.utf8ByteSize := by
  cases h with
  | file hfile => simp [hfile]
  | long hmissing hlong => simp [hmissing, hlong]
  | full hmissing hshort => simp [hshort]

theorem eq_tableFull_iff (h : Stuck v dir err) :
    err = .tableFull ↔
      v.table.kindAt dir = .unknown ∧ dir.utf8ByteSize ≤ v.table.maxPathLength ∧
        v.table.capacity ≤ v.table.entries.length := by
  cases h with
  | file hfile => simp [hfile]
  | long hmissing hlong => simp [Nat.not_le.mpr hlong]
  | full hmissing hshort hfull => simp [hmissing, hshort, hfull]

theorem mem_errors (h : Stuck v dir err) :
    err = .notADirectory ∨ err = .pathTooLong ∨ err = .tableFull := by
  cases h <;> simp

end Stuck

/-! ### Every reachable volume -/

/-- In every reachable volume, if a directory can be made with its parents, the whole way down to
it is there, and what was done is that those of its directories that were missing were added at the
end, in order and each with a tick of its own. If not, this holds of the directories in front of the
first one that cannot be made, and the error says what is wrong with this one: a file is there, or
nothing is and the path is too long or no slot is free. Asked again, the volume answers the same and
stays as it is. -/
theorem createDirs_adds_missing_directories (h : Reachable limits v) (hpath : path ≠ "") :
    let dirs := chain (Path.names path)
    let w := (v.createDirs path).2
    ((v.createDirs path).1 = .ok () →
      (∀ dir ∈ dirs, w.table.kindAt dir = .directory) ∧ w = v.withDirs (v.missing dirs)) ∧
    (∀ err, (v.createDirs path).1 = .error err →
      ∃ before stuck after, dirs = before ++ stuck :: after ∧
        (∀ dir ∈ before, w.table.kindAt dir = .directory) ∧
        w = v.withDirs (v.missing before) ∧
        w.table.find? stuck = v.table.find? stuck ∧
        (err = .notADirectory ∨ err = .pathTooLong ∨ err = .tableFull) ∧
        (err = .notADirectory ↔ w.table.kindAt stuck = .file) ∧
        (err = .pathTooLong ↔
          w.table.kindAt stuck = .unknown ∧ max 1 limits.maxPathLength < stuck.utf8ByteSize) ∧
        (err = .tableFull ↔
          w.table.kindAt stuck = .unknown ∧ stuck.utf8ByteSize ≤ max 1 limits.maxPathLength ∧
            w.table.entries.length = max 1 limits.maxEntries)) ∧
    w.createDirs path = v.createDirs path := by
  intro dirs w
  have hreach : Reachable limits w := h.step (.createDirs path)
  have hs := sound_of_reachable hreach
  have hlength := hs.maxPathLength_eq
  have hslots := hs.full_iff
  rw [hs.limits_eq] at hlength hslots
  refine ⟨?_, ?_, createDirs_twice v path⟩
  · intro hok
    rcases createDirs_cases v hpath with ⟨x, hx, hmade⟩ | ⟨-, -, -, err, x, -, hx, -, -⟩
    · obtain rfl : w = x := congrArg Prod.snd hx
      exact ⟨hmade.there, hmade.eq_withDirs⟩
    · rw [hx] at hok
      exact absurd hok (by simp)
  · intro err herr
    rcases createDirs_cases v hpath with
      ⟨x, hx, hmade⟩ | ⟨before, stuck, after, err', x, hsplit, hx, hmade, hstuck⟩
    · rw [hx] at herr
      exact absurd herr (by simp)
    · obtain rfl : w = x := congrArg Prod.snd hx
      obtain rfl : err' = err := Except.error.inj ((congrArg Prod.fst hx).symm.trans herr)
      have hkept := find?_stuck (v := v) hsplit
      rw [← hmade.eq_withDirs] at hkept
      refine ⟨before, stuck, after, hsplit, hmade.there, hmade.eq_withDirs, hkept,
        hstuck.mem_errors, hstuck.eq_notADirectory_iff, ?_, ?_⟩
      · rw [← hlength]
        exact hstuck.eq_pathTooLong_iff
      · rw [← hlength, ← hslots]
        exact hstuck.eq_tableFull_iff

/-- `/a/b` was made without its parent. The way down through it adds what is missing above and below
it, and the table takes no more; a way down through a file ends at the file. -/
theorem directories_through_orphan :
    let v := ((ofLimits ⟨5, 8, 16, 8, .relocate⟩).serve
      [.create "/a/b" true, .write "/f" [1]]).2
    let w := (v.createDirs "a//b/c/d").2
    (v.createDirs "/a/b/c").1 = .ok () ∧
      (v.createDirs "/a/b/c").2 = v.withDirs ["/a", "/a/b/c"] ∧
      (v.createDirs "a//b/c/d").1 = .error .tableFull ∧
      w.table.entries.map (fun e => (e.path, e.createdTick)) =
        [("/", 1), ("/a/b", 2), ("/f", 3), ("/a", 4), ("/a/b/c", 5)] ∧
      w.table.entries.length = 5 ∧
      w.createDirs "a//b/c/d" = (.error .tableFull, w) ∧
      (v.createDirs "/f/x").1 = .error .notADirectory ∧
      (∃ before stuck after, chain (Path.names "/f/x") = before ++ stuck :: after ∧
        (v.createDirs "/f/x").2.table.kindAt stuck = .file) ∧
      (v.createDirs "/abcdefgh").1 = .error .pathTooLong ∧
      ∃ before stuck after, chain (Path.names "/abcdefgh") = before ++ stuck :: after ∧
        8 < stuck.utf8ByteSize := by
  intro v w
  have hv : Reachable ⟨5, 8, 16, 8, .relocate⟩ v := Reachable.serve .start _
  have hall := fun (path : String) (hpath : path ≠ "") =>
    createDirs_adds_missing_directories hv hpath
  have hok : (v.createDirs "/a/b/c").1 = .ok () := by decide
  have hmissing : v.missing (chain (Path.names "/a/b/c")) = ["/a", "/a/b/c"] := by decide
  obtain ⟨hmade, -, -⟩ := hall "/a/b/c" (by decide)
  have hfull : (v.createDirs "a//b/c/d").1 = .error .tableFull := by decide
  obtain ⟨-, hstopped, htwice⟩ := hall "a//b/c/d" (by decide)
  obtain ⟨-, deep, -, -, -, -, -, -, -, -, hslots⟩ := hstopped _ hfull
  have hfile : (v.createDirs "/f/x").1 = .error .notADirectory := by decide
  obtain ⟨above, file, below, hway, -, -, -, -, hkind, -, -⟩ :=
    (hall "/f/x" (by decide)).2.1 _ hfile
  have hlong : (v.createDirs "/abcdefgh").1 = .error .pathTooLong := by decide
  obtain ⟨front, far, rest, hfar, -, -, -, -, -, hbytes, -⟩ :=
    (hall "/abcdefgh" (by decide)).2.1 _ hlong
  exact ⟨hok, hmissing ▸ (hmade hok).2, hfull, by decide, (hslots.mp rfl).2.2,
    htwice.trans (Prod.ext hfull rfl), hfile, ⟨above, file, below, hway, hkind.mp rfl⟩, hlong,
    front, far, rest, hfar, (hbytes.mp rfl).2⟩

end RamShell.Volume
