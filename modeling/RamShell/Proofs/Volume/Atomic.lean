import RamShell.Proofs.Volume.Run
/-!
# RamShell.Proofs.Volume.Atomic

Changes happen as a whole or not at all. A change that fails half way would hand back the volume
as it was left, with an entry that has no content, with a moved cursor or with a tick spent;
`failed_change_leaves_volume` says that no reachable volume is ever left so.

The checks are made in an order that leaves nothing to fail once the volume has been touched.
`CommitsSafely` says this of every step that comes after a first mutation.
-/

namespace RamShell.Volume

variable {limits : Limits} {v w : Volume}

/-- What comes after the first mutation of a change cannot fail any more. -/
structure CommitsSafely (v : Volume) : Prop where
  /-- Once the entry of a new file is made, its space is handed out and its content written. -/
  fill : ∀ (c : String) (bytes : Bytes) (e : Entry) (table : Table),
    v.arena.hasRoom bytes.length = true →
    v.table.create c false v.arena.used (v.tick + 1) = (.ok e, table) →
    (Volume.fill { v with table := table, tick := v.tick + 1 } c bytes).1 = .ok ()
  /-- Once space was handed out for content that outgrows its extent, the content is written and
  recorded. -/
  settle : ∀ (c : String) (bytes : Bytes) (e : Entry) (place : Extent) (w : Volume),
    v.table.find? c = some e → v.placeFor e.extent bytes.length = (.ok place, w) → w ≠ v →
    (w.settle c place bytes).1 = .ok ()
  /-- Once content was written, it is recorded. -/
  record : ∀ (c : String) (bytes : Bytes) (e : Entry) (place : Extent) (w : Volume)
    (arena : Arena) (record : Nat → Entry → Entry),
    v.table.find? c = some e → v.placeFor e.extent bytes.length = (.ok place, w) →
    w.arena.write place.offset bytes = (.ok (), arena) →
    (Volume.amend { w with arena := arena } c record).1 = .ok ()
  /-- Once a tick was taken to change an entry, the entry is changed. -/
  amend : ∀ (c : String) (record : Nat → Entry → Entry),
    v.table.contains c = true → (v.amend c record).1 = .ok ()

/-- A place is found without touching the entries. -/
theorem table_of_placeFor {x place : Extent} {size : Nat}
    (h : v.placeFor x size = (.ok place, w)) :
    ∃ arena, w = { v with arena := arena } ∧ Placement v x size place arena := by
  rcases v.placeFor_cases x size with ⟨e, he⟩ | ⟨place', arena, hplace, hplacement⟩
  · rw [he] at h
    exact absurd (congrArg Prod.fst h) (by simp)
  · rw [hplace] at h
    obtain ⟨hfst, rfl⟩ := Prod.mk.inj h
    obtain rfl : place' = place := Except.ok.inj hfst
    exact ⟨arena, rfl, hplacement⟩

theorem Sound.commitsSafely (h : Sound limits v) : CommitsSafely v where
  fill := by
    intro c bytes e table hroom hcreate
    have hused : v.arena.used ≤ v.arena.capacity := h.used_le
    have hfree : bytes.length ≤ v.arena.free := by simpa [Arena.hasRoom] using hroom
    rw [fill_eq_ok (v := { v with table := table, tick := v.tick + 1 }) hused hfree]
  settle := by
    intro c bytes e place w hfound hplace hmoved
    obtain ⟨arena, rfl, hplacement⟩ := table_of_placeFor hplace
    -- A volume that was touched is one whose cursor was moved, after asking for the room.
    have hfit : place.offset + bytes.length ≤ v.arena.capacity := by
      rcases hplacement.fits_of_advanced h.used_le with rfl | hfit
      · exact absurd rfl hmoved
      · exact hfit
    rw [← hplacement.capacity_eq] at hfit
    rw [settle_eq_ok (v := { v with arena := arena }) hfound hfit]
  record := by
    intro c bytes e place w arena record hfound hplace hwrite
    obtain ⟨_, rfl, -⟩ := table_of_placeFor hplace
    rw [amend_eq_ok (v := { v with arena := arena }) hfound record]
  amend := by
    intro c record hthere
    obtain ⟨e, hfound⟩ := Table.contains_iff.mp hthere
    rw [amend_eq_ok hfound record]

/-- A change that fails leaves the volume as it was. -/
theorem Sound.eq_of_error (h : Sound limits v) {c : Change} {e : Error}
    (he : (v.apply c).1 = .error e) : (v.apply c).2 = v := by
  rcases apply_cases h.used_le c with ⟨e', hfailed⟩ | ⟨w, hdone, -⟩
  · rw [hfailed]
  · rw [hdone] at he
    exact absurd he (by simp)

/-- In every reachable volume, creating, writing, deleting and changing permissions either succeed
or leave everything as it was: the entries in their order, the bytes of the arena, the cursor and
the tick. No step after a first mutation can fail. -/
theorem failed_change_leaves_volume (h : Reachable limits v) :
    (∀ path isDirectory e,
      (v.create path isDirectory).1 = .error e → (v.create path isDirectory).2 = v) ∧
    (∀ path bytes e, (v.write path bytes).1 = .error e → (v.write path bytes).2 = v) ∧
    (∀ path e, (v.delete path).1 = .error e → (v.delete path).2 = v) ∧
    (∀ path mode e, (v.setPermissions path mode).1 = .error e →
      (v.setPermissions path mode).2 = v) ∧
    CommitsSafely v := by
  have hsound := sound_of_reachable h
  refine ⟨?_, ?_, ?_, ?_, hsound.commitsSafely⟩
  · intro path isDirectory e he
    exact hsound.eq_of_error (c := .create path isDirectory) he
  · intro path bytes e he
    exact hsound.eq_of_error (c := .write path bytes) he
  · intro path e he
    exact hsound.eq_of_error (c := .delete path) he
  · intro path mode e he
    exact hsound.eq_of_error (c := .setPermissions path mode) he

/-- A file that would run past the end of a full arena stays as it is, under either policy. -/
theorem failed_writes_leave_full_volume :
    let spilling := ((ofLimits ⟨3, 8, 4, 9, .inPlace⟩).serve
      [.write "/a" [1, 2], .write "/b" [3, 4]]).2
    let moving := ((ofLimits ⟨3, 8, 4, 9, .relocate⟩).serve
      [.write "/a" [1, 2], .write "/b" [3, 4]]).2
    (spilling.write "/b" [5, 6, 7]).1 = .error .outOfSpace ∧
      (spilling.write "/b" [5, 6, 7]).2 = spilling ∧
      (moving.write "/a" [5, 6, 7]).1 = .error .outOfSpace ∧
      (moving.write "/a" [5, 6, 7]).2 = moving ∧
      (moving.create "/c" true).2 = moving := by
  intro spilling moving
  have hspilling := failed_change_leaves_volume (Reachable.start.serve
    [.write "/a" [1, 2], .write "/b" [3, 4]] : Reachable ⟨3, 8, 4, 9, .inPlace⟩ spilling)
  have hmoving := failed_change_leaves_volume (Reachable.start.serve
    [.write "/a" [1, 2], .write "/b" [3, 4]] : Reachable ⟨3, 8, 4, 9, .relocate⟩ moving)
  -- The first would end past the arena, the second asks for space where none is left.
  have hspill : (spilling.write "/b" [5, 6, 7]).1 = .error .outOfSpace := by decide
  have hmove : (moving.write "/a" [5, 6, 7]).1 = .error .outOfSpace := by decide
  have hfull : (moving.create "/c" true).1 = .error .tableFull := by decide
  exact ⟨hspill, hspilling.2.1 _ _ _ hspill, hmove, hmoving.2.1 _ _ _ hmove,
    hmoving.1 _ _ _ hfull⟩

end RamShell.Volume
