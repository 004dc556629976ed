import RamShell.Volume.Request
/-!
# RamShell.Proofs.Volume.Growth

The growth policy decides one thing only: where content goes that has outgrown its extent. As long
as no write outgrows the extent it finds, a volume answers and changes the same under either
policy (`policies_agree_within_extents`).

The two runs go side by side. `withGrowth` exchanges the policy of a volume and leaves everything
else as it is, and every operation commutes with it: an operation on the volume with the other
policy gives the same answer, and leaves the same volume with the other policy. There is one lemma
for each operation, in the order in which the operations call each other. Only `placeFor` looks at
the policy, and only where content does not fit, so that is the one lemma with a condition; it is
handed up through `overwrite` and `write` to whole runs. Files that are made at first boot are
always fresh ones, for which there is no extent to outgrow.
-/

namespace RamShell.Volume

/-- The same volume with another growth policy. -/
def withGrowth (g : Growth) (v : Volume) : Volume :=
  { v with limits := { v.limits with growth := g } }

/-- The same answer, with the volume it leaves put under another growth policy. -/
def Result.withGrowth {α : Type} (g : Growth) (r : Result α) : Result α :=
  (r.1, r.2.withGrowth g)

/-- Whether a request leaves the growth policy out of play: it does not write more into an existing
file than the extent of the file has room for. -/
def Request.within (v : Volume) : Request → Bool
  | .write path bytes =>
    (v.find? path).all fun e => e.isDirectory || e.extent.fits bytes.length
  | _ => true

/-- Whether no request of a run writes more into an existing file than the extent that the file has
by then has room for. -/
def staysWithin (v : Volume) : List Request → Bool
  | [] => true
  | r :: rs => r.within v && (v.answer r).2.staysWithin rs

variable {g : Growth} {v : Volume}

/-! ### Looking -/

@[simp] theorem withGrowth_table (g : Growth) (v : Volume) : (v.withGrowth g).table = v.table := rfl

@[simp] theorem withGrowth_arena (g : Growth) (v : Volume) : (v.withGrowth g).arena = v.arena := rfl

@[simp] theorem withGrowth_tick (g : Growth) (v : Volume) : (v.withGrowth g).tick = v.tick := rfl

@[simp] theorem withGrowth_maxFileSize (g : Growth) (v : Volume) :
    (v.withGrowth g).limits.maxFileSize = v.limits.maxFileSize := rfl

@[simp] theorem contains_withGrowth (g : Growth) (v : Volume) (path : String) :
    (v.withGrowth g).contains path = v.contains path := rfl

/-! ### Elementary changes -/

theorem create_withGrowth (g : Growth) (v : Volume) (path : String) (isDirectory : Bool) :
    (v.withGrowth g).create path isDirectory = (v.create path isDirectory).withGrowth g := by
  simp only [create, withGrowth_table, withGrowth_arena, withGrowth_tick]
  cases keyOf path with
  | error e => rfl
  | ok c =>
    dsimp only
    rcases v.table.create c isDirectory v.arena.used (v.tick + 1) with ⟨e | e, table⟩
    · rfl
    · rfl

theorem amend_withGrowth (g : Growth) (v : Volume) (c : String) (record : Nat → Entry → Entry) :
    (v.withGrowth g).amend c record = (v.amend c record).withGrowth g := by
  simp only [amend, withGrowth_table, withGrowth_tick]
  cases v.table.find? c with
  | none => rfl
  | some e => rfl

theorem settle_withGrowth (g : Growth) (v : Volume) (c : String) (place : Extent) (bytes : Bytes) :
    (v.withGrowth g).settle c place bytes = (v.settle c place bytes).withGrowth g := by
  simp only [settle, withGrowth_arena]
  rcases v.arena.write place.offset bytes with ⟨e | ⟨⟩, arena⟩
  · rfl
  · exact amend_withGrowth g { v with arena := arena } c _

/-- Content that fits stays where it is, whatever the policy. -/
theorem placeFor_withGrowth {x : Extent} {size : Nat} (hfit : x.fits size = true) :
    (v.withGrowth g).placeFor x size = (v.placeFor x size).withGrowth g := by
  rw [placeFor, if_pos hfit, placeFor, if_pos hfit]
  rfl

theorem overwrite_withGrowth {x : Extent} {bytes : Bytes} (hfit : x.fits bytes.length = true)
    (c : String) :
    (v.withGrowth g).overwrite c x bytes = (v.overwrite c x bytes).withGrowth g := by
  rw [overwrite, overwrite, placeFor_withGrowth hfit, placeFor, if_pos hfit]
  exact settle_withGrowth g v c x bytes

theorem fill_withGrowth (g : Growth) (v : Volume) (c : String) (bytes : Bytes) :
    (v.withGrowth g).fill c bytes = (v.fill c bytes).withGrowth g := by
  simp only [fill, withGrowth_arena, withGrowth_table]
  rcases v.arena.reserve bytes.length with ⟨e | extent, arena⟩
  · rfl
  · dsimp only
    rcases arena.write extent.offset bytes with ⟨e | ⟨⟩, written⟩
    · rfl
    · rfl

theorem writeFresh_withGrowth (g : Growth) (v : Volume) (c : String) (bytes : Bytes) :
    (v.withGrowth g).writeFresh c bytes = (v.writeFresh c bytes).withGrowth g := by
  cases hroom : v.arena.hasRoom bytes.length with
  | false =>
    simp only [writeFresh, withGrowth_arena, hroom, Bool.false_eq_true, if_false]
    rfl
  | true =>
    simp only [writeFresh, withGrowth_table, withGrowth_arena, withGrowth_tick, hroom, if_true]
    rcases v.table.create c false v.arena.used (v.tick + 1) with ⟨e | e, table⟩
    · rfl
    · exact fill_withGrowth g { v with table := table, tick := v.tick + 1 } c bytes

theorem write_withGrowth {path : String} {bytes : Bytes}
    (h : (Request.write path bytes).within v = true) :
    (v.withGrowth g).write path bytes = (v.write path bytes).withGrowth g := by
  simp only [Request.within, find?] at h
  simp only [write, withGrowth_table, withGrowth_maxFileSize]
  cases hkey : keyOf path with
  | error e => rfl
  | ok c =>
    simp only [hkey] at h
    by_cases hlarge : v.limits.maxFileSize < bytes.length
    · simp only [hlarge, if_true]
      rfl
    simp only [hlarge, if_false]
    cases hfound : v.table.find? c with
    | none => exact writeFresh_withGrowth g v c bytes
    | some e =>
      cases hdir : e.isDirectory with
      | true =>
        simp only [hdir, if_true]
        rfl
      | false =>
        simp only [hfound, hdir, Option.all_some, Bool.false_or] at h
        simp only [hdir, Bool.false_eq_true, if_false]
        exact overwrite_withGrowth h c

theorem delete_withGrowth (g : Growth) (v : Volume) (path : String) :
    (v.withGrowth g).delete path = (v.delete path).withGrowth g := by
  simp only [delete, withGrowth_table]
  cases keyOf path with
  | error e => rfl
  | ok c =>
    by_cases hroot : c = Path.root
    · simp only [hroot, if_true]
      rfl
    simp only [hroot, if_false]
    cases v.table.find? c with
    | none => rfl
    | some e =>
      cases hfull : e.isDirectory && v.table.hasBelow (Path.childStem c) with
      | true =>
        simp only [hfull, if_true]
        rfl
      | false =>
        simp only [hfull, Bool.false_eq_true, if_false]
        rcases v.table.delete c with ⟨e | e, table⟩
        · rfl
        · rfl

theorem setPermissions_withGrowth (g : Growth) (v : Volume) (path : String) (mode : UInt16) :
    (v.withGrowth g).setPermissions path mode = (v.setPermissions path mode).withGrowth g := by
  simp only [setPermissions, withGrowth_table]
  cases keyOf path with
  | error e => rfl
  | ok c =>
    cases hthere : v.table.contains c with
    | true =>
      simp only [hthere, if_true]
      exact amend_withGrowth g v c _
    | false =>
      simp only [hthere, Bool.false_eq_true, if_false]
      rfl

theorem withRoot_withGrowth (g : Growth) (v : Volume) :
    (v.withGrowth g).withRoot = v.withRoot.withGrowth g := rfl

theorem reset_withGrowth (g : Growth) (v : Volume) :
    (v.withGrowth g).reset = v.reset.withGrowth g :=
  withRoot_withGrowth g { v with table := v.table.clear, arena := v.arena.reset, tick := 0 }

/-! ### Rows of changes -/

theorem createMissing_withGrowth (g : Growth) (v : Volume) (dirs : List String) :
    (v.withGrowth g).createMissing dirs = (v.createMissing dirs).withGrowth g := by
  induction dirs generalizing v with
  | nil => rfl
  | cons dir dirs ih =>
    simp only [createMissing, withGrowth_table, create_withGrowth]
    cases v.table.find? dir with
    | some e =>
      dsimp only
      split
      · exact ih v
      · rfl
    | none =>
      rcases v.create dir true with ⟨(e | ⟨⟩), w⟩
      · rfl
      · exact ih w

theorem createDirs_withGrowth (g : Growth) (v : Volume) (path : String) :
    (v.withGrowth g).createDirs path = (v.createDirs path).withGrowth g := by
  simp only [createDirs]
  cases keyOf path with
  | error e => rfl
  | ok c => exact createMissing_withGrowth g v _

theorem addDirs_withGrowth (g : Growth) (v : Volume) (dirs : List String) :
    (v.withGrowth g).addDirs dirs = (v.addDirs dirs).withGrowth g := by
  induction dirs generalizing v with
  | nil => rfl
  | cons dir dirs ih =>
    simp only [addDirs, createDirs_withGrowth]
    rcases v.createDirs dir with ⟨(e | ⟨⟩), w⟩
    · rfl
    · exact ih w

/-- What does not exist has no extent to outgrow. -/
theorem within_of_not_contains {path : String} (hnew : v.contains path = false) (bytes : Bytes) :
    (Request.write path bytes).within v = true := by
  have hnone : v.find? path = none := by simpa [contains] using hnew
  rw [Request.within, hnone]
  rfl

theorem addFixture_withGrowth {f : Fixture} (hnew : v.contains f.path = false) :
    (v.withGrowth g).addFixture f = (v.addFixture f).withGrowth g := by
  simp only [addFixture, write_withGrowth (within_of_not_contains hnew _)]
  rcases v.write f.path f.content with ⟨(e | ⟨⟩), w⟩
  · rfl
  · exact setPermissions_withGrowth g w f.path f.mode

theorem addFixtures_withGrowth (g : Growth) (v : Volume) (fs : List Fixture) :
    (v.withGrowth g).addFixtures fs = (v.addFixtures fs).withGrowth g := by
  induction fs generalizing v with
  | nil => rfl
  | cons f fs ih =>
    simp only [addFixtures, contains_withGrowth]
    by_cases hthere : v.contains f.path = true
    · simp only [hthere, if_true]
      exact ih v
    · rw [Bool.not_eq_true] at hthere
      simp only [hthere, Bool.false_eq_true, if_false, addFixture_withGrowth hthere]
      rcases v.addFixture f with ⟨(e | ⟨⟩), w⟩
      · rfl
      · exact ih w

theorem seed_withGrowth (g : Growth) (v : Volume) : (v.withGrowth g).seed = v.seed.withGrowth g := by
  simp only [seed, addDirs_withGrowth]
  rcases v.addDirs skeletonDirs with ⟨(e | ⟨⟩), w⟩
  · rfl
  · exact addFixtures_withGrowth g w fixtures

/-! ### Requests and runs -/

theorem ofResult_withGrowth (g : Growth) (r : Result Unit) :
    Reply.ofResult (r.withGrowth g) = ((Reply.ofResult r).1, (Reply.ofResult r).2.withGrowth g) := rfl

/-- One request: the same reply, and the same volume but for the policy. -/
theorem answer_withGrowth {r : Request} (h : r.within v = true) :
    (v.withGrowth g).answer r = ((v.answer r).1, (v.answer r).2.withGrowth g) := by
  cases r with
  | create path isDirectory => rw [answer, create_withGrowth, ofResult_withGrowth, answer]
  | createDirs path => rw [answer, createDirs_withGrowth, ofResult_withGrowth, answer]
  | write path bytes => rw [answer, write_withGrowth h, ofResult_withGrowth, answer]
  | delete path => rw [answer, delete_withGrowth, ofResult_withGrowth, answer]
  | setPermissions path mode =>
    rw [answer, setPermissions_withGrowth, ofResult_withGrowth, answer]
  | seed => rw [answer, seed_withGrowth, ofResult_withGrowth, answer]
  | reset => rw [answer, reset_withGrowth, answer]
  | _ => rfl

/-- A run of requests: the same replies, and the same volume but for the policy. -/
theorem serve_withGrowth {rs : List Request} (h : v.staysWithin rs = true) :
    (v.withGrowth g).serve rs = ((v.serve rs).1, (v.serve rs).2.withGrowth g) := by
  induction rs generalizing v with
  | nil => rfl
  | cons r rs ih =>
    simp only [staysWithin, Bool.and_eq_true] at h
    obtain ⟨hfirst, hrest⟩ := h
    rw [serve_cons, serve_cons, answer_withGrowth hfirst, ih hrest]

theorem ofLimits_withGrowth (g : Growth) (limits : Limits) :
    ofLimits { limits with growth := g } = (ofLimits limits).withGrowth g :=
  withRoot_withGrowth g
    { limits := limits
      table := .empty (max limits.maxEntries 1) (max limits.maxPathLength 1)
      arena := .zeroed limits.arenaCapacity
      tick := 0 }

/-- Under limits that differ in the growth policy alone, requests that never write more into an
existing file than its extent has room for are given the same replies, one by one, and leave the
same entries in the same order, the same arena with the same cursor, and the same tick. -/
theorem policies_agree_within_extents {limits limits' : Limits}
    (hgrowth : limits' = { limits with growth := limits'.growth }) {rs : List Request}
    (hwithin : (ofLimits limits).staysWithin rs = true) :
    ((ofLimits limits').serve rs).1 = ((ofLimits limits).serve rs).1 ∧
      ((ofLimits limits').serve rs).2.table = ((ofLimits limits).serve rs).2.table ∧
      ((ofLimits limits').serve rs).2.arena = ((ofLimits limits).serve rs).2.arena ∧
      ((ofLimits limits').serve rs).2.tick = ((ofLimits limits).serve rs).2.tick := by
  rw [hgrowth, ofLimits_withGrowth, serve_withGrowth hwithin]
  exact ⟨rfl, rfl, rfl, rfl⟩

/-- Content of the same length and shorter content stay in place, and the room of a deleted file is
not used again, under either policy. The file made last has no room at all, so one byte in it sets
the policies apart. -/
theorem policies_agree_on_rewrites :
    let relocating : Limits := ⟨8, 16, 16, 16, .relocate⟩
    let spilling : Limits := ⟨8, 16, 16, 16, .inPlace⟩
    let rs : List Request :=
      [.createDirs "/d/e", .write "/d/f" [1, 2, 3], .write "d//f" [4, 5, 6], .write "/d/e" [1],
        .write "/d/g" [7], .write "/d/./f" [8], .write "/d/f" [9, 9, 9], .delete "/d/g",
        .setPermissions "/d/f" 0o600, .create "/h" false, .write "/h" [], .readAll "/d/f"]
    (ofLimits relocating).staysWithin rs = true ∧
      ((ofLimits spilling).serve rs).1 = ((ofLimits relocating).serve rs).1 ∧
      ((ofLimits spilling).serve rs).2.arena = ((ofLimits relocating).serve rs).2.arena ∧
      (ofLimits relocating).staysWithin (rs ++ [.write "/h" [1]]) = false ∧
      ((ofLimits spilling).serve (rs ++ [.write "/h" [1]])).2.arena ≠
        ((ofLimits relocating).serve (rs ++ [.write "/h" [1]])).2.arena := by
  intro relocating spilling rs
  have hwithin : (ofLimits relocating).staysWithin rs = true := by decide
  obtain ⟨hreplies, -, harena, -⟩ :=
    @policies_agree_within_extents relocating spilling rfl rs hwithin
  exact ⟨hwithin, hreplies, harena, by decide, by decide⟩

end RamShell.Volume
