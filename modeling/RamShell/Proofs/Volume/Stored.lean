import RamShell.Proofs.Volume.Run
/-!
# RamShell.Proofs.Volume.Stored

What the table of a volume holds, in the terms in which it can be looked at: the entries in storage
order, their paths and their sizes. `Sound` keeps these facts for the sake of the next change; here
they are read off it for whoever looks.

The main statement is `stored_within_limits`. It holds under both growth policies and for all
limits, those of size zero among them, and it ends in what the bounds are for: a file gives back as
many bytes as its record says, so no read is cut short by the end of the arena.
-/

namespace RamShell.Volume

variable {limits : Limits} {v : Volume} {e : Entry}

/-! ### Reading to the recorded size -/

/-- The front of a span is a shorter span. -/
theorem Arena.take_span (a : Arena) (offset length n : Nat) :
    (a.span offset length).take n = a.span offset (min length n) := by
  refine (Arena.span_eq_of_byteAt ?_ ?_).symm
  · rw [List.length_take, length_span]
    omega
  · intro i hi
    rw [List.length_take, length_span] at hi
    have hget := getD_span a offset length i
    rw [if_pos (by omega)] at hget
    rw [← hget, List.getD_eq_getElem?_getD, List.getD_eq_getElem?_getD,
      List.getElem?_take_of_lt (by omega)]

/-- The extent of an entry lies in the arena, so nothing of its content is cut off. -/
theorem Sound.length_content (h : Sound limits v) (he : e ∈ v.table.entries) :
    (v.arena.span e.extent.offset e.size).length = e.size := by
  have hsize := (h.entries e he).size_le_length
  have hinside := (h.entries e he).inside
  have hcap := h.capacity_eq
  rw [Arena.length_span]
  omega

/-- What a path names is in the table. -/
theorem mem_of_find?_eq_some {path : String} (hfound : v.find? path = some e) :
    e ∈ v.table.entries :=
  Table.mem_of_find? (find?_eq_some_iff.mp hfound).2

/-- What is read of a file is the span of the arena that its record names. -/
theorem readAll_of_file {path : String} (hfound : v.find? path = some e)
    (hfile : e.isDirectory = false) :
    v.readAll path = .ok (v.arena.span e.extent.offset e.size) := by
  rw [readAll, hfound]
  exact if_neg (by simp [hfile])

/-- Only files are read. -/
theorem file_of_readAll {path : String} {bytes : Bytes} (hread : v.readAll path = .ok bytes) :
    ∃ e, v.find? path = some e ∧ e.isDirectory = false := by
  rw [readAll] at hread
  cases hfound : v.find? path with
  | none => simp [hfound] at hread
  | some e =>
    cases hdir : e.isDirectory with
    | true => simp [hfound, hdir] at hread
    | false => exact ⟨e, rfl, hdir⟩

/-- A file is read as a whole, to its recorded size. -/
theorem Sound.readAll_eq_ok (h : Sound limits v) {path : String} (hfound : v.find? path = some e)
    (hfile : e.isDirectory = false) :
    ∃ bytes, v.readAll path = .ok bytes ∧ bytes.length = e.size :=
  ⟨_, readAll_of_file hfound hfile, h.length_content (mem_of_find?_eq_some hfound)⟩

/-- Reading into a buffer gives what the buffer has room for of the whole content, and leaves the
rest of the buffer alone. -/
theorem Sound.read_eq_ok (h : Sound limits v) {path : String} {bytes : Bytes}
    (hfound : v.find? path = some e) (hread : v.readAll path = .ok bytes) (buffer : Bytes) :
    v.read path buffer =
      .ok (min e.size buffer.length, bytes.take buffer.length ++ buffer.drop e.size) := by
  have hlength := h.length_content (mem_of_find?_eq_some hfound)
  rw [readAll, hfound] at hread
  rw [read, hfound]
  dsimp only at hread ⊢
  split at hread
  · exact absurd hread (by simp)
  · next hfile =>
    obtain rfl := Except.ok.inj hread
    -- The count is how much of the content the buffer takes, and the rest starts there.
    have hcount : (v.arena.span e.extent.offset (min e.size buffer.length)).length =
        min e.size buffer.length := by
      rw [← Arena.take_span, List.length_take, hlength, Nat.min_comm]
    have hrest : buffer.drop (min e.size buffer.length) = buffer.drop e.size := by
      rcases Nat.le_total e.size buffer.length with hle | hle
      · rw [Nat.min_eq_left hle]
      · rw [Nat.min_eq_right hle, List.drop_of_length_le hle, List.drop_length]
    rw [if_neg hfile, Arena.read, hcount, hrest, Arena.take_span]

/-! ### Every reachable volume -/

/-- In every reachable volume, whatever its limits and its growth policy: no path is stored twice;
stored paths are canonical and within the length limit; there is at least one entry and no more
than the table has slots; the first entry is the root directory; directories have neither content
nor space; every entry is within the size limit, inside its extent and inside the arena; and so
every file is read to its recorded size, at once or into a buffer. -/
theorem stored_within_limits (h : Reachable limits v) :
    (v.table.entries.map Entry.path).Nodup ∧
    (∀ e ∈ v.table.entries, Path.normalize e.path = e.path ∧
      e.path.utf8ByteSize ≤ max 1 limits.maxPathLength) ∧
    1 ≤ v.table.entries.length ∧ v.table.entries.length ≤ max 1 limits.maxEntries ∧
    (∃ e, v.table.entries[0]? = some e ∧ e.path = "/" ∧ e.isDirectory = true) ∧
    (∀ e ∈ v.table.entries, e.isDirectory = true → e.size = 0 ∧ e.extent.length = 0) ∧
    (∀ e ∈ v.table.entries, e.size ≤ limits.maxFileSize ∧ e.size ≤ e.extent.length ∧
      e.extent.offset + e.extent.length ≤ limits.arenaCapacity) ∧
    ∀ path e, v.find? path = some e → e.isDirectory = false →
      ∃ bytes, v.readAll path = .ok bytes ∧ bytes.length = e.size ∧
        ∀ buffer, v.read path buffer =
          .ok (min e.size buffer.length, bytes.take buffer.length ++ buffer.drop e.size) := by
  have hs := sound_of_reachable h
  obtain ⟨root, hhead, hroot⟩ := hs.root
  refine ⟨hs.distinct, ?_, ?_, ?_, ⟨root, ?_, hroot⟩, ?_, ?_, ?_⟩
  · intro e he
    exact ⟨(hs.entries e he).canonical, Nat.max_comm .. ▸ (hs.entries e he).short⟩
  · exact List.length_pos_of_mem (List.mem_of_head? hhead)
  · have hsize := hs.size_le
    rw [hs.slots_eq, Nat.max_comm] at hsize
    exact hsize
  · rw [← List.head?_eq_getElem?, hhead]
  · exact fun e he => (hs.entries e he).bare
  · exact fun e he =>
      ⟨(hs.entries e he).size_le_max, (hs.entries e he).size_le_length, (hs.entries e he).inside⟩
  · intro path e hfound hfile
    obtain ⟨bytes, hread, hlength⟩ := hs.readAll_eq_ok hfound hfile
    exact ⟨bytes, hread, hlength, hs.read_eq_ok hfound hread⟩

/-- A file that grew past the cursor in place is within the arena and read as a whole, after a
deletion moved it in the table. A volume made with limits of zero holds its root. -/
theorem stored_after_growth_in_place :
    let v := ((ofLimits ⟨4, 8, 6, 8, .inPlace⟩).serve
      [.create "/d" true, .write "/b" [3], .write "/a" [1, 2], .delete "/d",
        .write "/a" [4, 5, 6, 7]]).2
    let empty := ofLimits ⟨0, 0, 0, 0, .relocate⟩
    v.arena.used = 3 ∧
      v.table.entries.map (fun e => (e.path, e.extent)) =
        [("/", ⟨0, 0⟩), ("/a", ⟨1, 4⟩), ("/b", ⟨0, 1⟩)] ∧
      (∀ e ∈ v.table.entries, e.extent.offset + e.extent.length ≤ 6) ∧
      (∃ bytes, v.readAll "d/..//a" = .ok bytes ∧ bytes.length = 4) ∧
      empty.table.entries.length = 1 := by
  intro v empty
  have hv : Reachable ⟨4, 8, 6, 8, .inPlace⟩ v := Reachable.serve .start _
  obtain ⟨-, -, -, -, -, -, hbounds, hreads⟩ := stored_within_limits hv
  have hfound : v.find? "d/..//a" = some ⟨"/a", 4, ⟨1, 4⟩, false, 4, 5, .standard⟩ := by decide
  obtain ⟨bytes, hread, hlength, -⟩ := hreads _ _ hfound rfl
  have hempty : Reachable ⟨0, 0, 0, 0, .relocate⟩ empty := .start
  obtain ⟨-, -, hleast, hmost, -⟩ := stored_within_limits hempty
  exact ⟨by decide, by decide, fun e he => (hbounds e he).2.2, ⟨bytes, hread, hlength⟩,
    Nat.le_antisymm hmost hleast⟩

end RamShell.Volume
