import RamShell.Proofs.Volume.Run
/-!
# RamShell.Proofs.Volume.Refusal

When an entry is made and when content is written, and what is answered if not. The checks stand in
several functions, some of them twice and some after the volume has been touched. To a caller they
are one row of checks, and the first one that strikes is the answer (`verdict`).

There is one lemma for each function that says which row of checks it amounts to. A check drops out
of a row where the function that calls it has made sure that it cannot strike: the invariant of
reachable volumes leaves nothing to fail once the space for new content was found. The main
statement is `write_and_create_verdicts`.
-/

namespace RamShell.Volume

/-! ### Rows of checks -/

/-- What comes of checks that are made in order: the error of the first one that strikes, if one
does. -/
def verdict (checks : List (Bool × Error)) : Except Error Unit :=
  match checks.find? Prod.fst with
  | some (_, e) => .error e
  | none => .ok ()

section Rows

variable {p : Prop} [Decidable p] {e : Error} {checks : List (Bool × Error)}

theorem verdict_cons (strikes : Bool) (e : Error) (checks : List (Bool × Error)) :
    verdict ((strikes, e) :: checks) = if strikes then .error e else verdict checks := by
  cases strikes <;> rfl

theorem verdict_of_strikes (hp : p) : verdict ((decide p, e) :: checks) = .error e := by
  rw [verdict_cons, if_pos (decide_eq_true hp)]

theorem verdict_of_passes (hp : ¬ p) : verdict ((decide p, e) :: checks) = verdict checks := by
  rw [verdict_cons, if_neg (by simpa using hp)]

/-- All is well exactly if no check strikes. -/
theorem verdict_eq_ok_iff : verdict checks = .ok () ↔ ∀ check ∈ checks, check.1 = false := by
  induction checks with
  | nil => simp [verdict]
  | cons check checks ih =>
    obtain ⟨strikes, e⟩ := check
    cases strikes with
    | true => simp [verdict_cons]
    | false => simp [verdict_cons, ih]

end Rows

/-- What is checked when an entry is made, in order. -/
def createChecks (v : Volume) (path : String) : List (Bool × Error) :=
  [(path = "", .invalidPath),
    (max 1 v.limits.maxPathLength < (Path.normalize path).utf8ByteSize, .pathTooLong),
    (∃ e ∈ v.table.entries, e.path = Path.normalize path, .duplicateExists),
    (v.table.entries.length = max 1 v.limits.maxEntries, .tableFull)]

/-- Whether content of `size` bytes finds no place for a file that has extent `x`: it outgrows the
extent, and there is too little space left to move to, or too little of the arena to grow into. -/
def Overruns (v : Volume) (x : Extent) (size : Nat) : Prop :=
  x.length < size ∧
    (v.limits.growth = .relocate ∧ v.arena.free < size ∨
      v.limits.growth = .inPlace ∧ v.arena.capacity < x.offset + size)

instance (v : Volume) (x : Extent) (size : Nat) : Decidable (v.Overruns x size) :=
  inferInstanceAs (Decidable (_ ∧ _))

/-- What is checked when content of `size` bytes is written, in order. After what is asked of every
path comes what is asked of a file, and then what is asked of a path that names nothing. -/
def writeChecks (v : Volume) (path : String) (size : Nat) : List (Bool × Error) :=
  let c := Path.normalize path
  let missing := ∀ e ∈ v.table.entries, e.path ≠ c
  [(path = "", .invalidPath),
    (v.limits.maxFileSize < size, .tooLarge),
    (∃ e ∈ v.table.entries, e.path = c ∧ e.isDirectory = true, .cannotWriteDirectory),
    (∃ e ∈ v.table.entries, e.path = c ∧ v.Overruns e.extent size, .outOfSpace),
    (missing ∧ v.arena.free < size, .outOfSpace),
    (missing ∧ max 1 v.limits.maxPathLength < c.utf8ByteSize, .pathTooLong),
    (missing ∧ v.table.entries.length = max 1 v.limits.maxEntries, .tableFull)]

variable {limits : Limits} {v : Volume} {path c : String} {bytes : Bytes}

/-! ### Making an entry -/

theorem Sound.slots_eq_max (h : Sound limits v) :
    v.table.capacity = max 1 v.limits.maxEntries := by
  rw [h.slots_eq, h.limits_eq, Nat.max_comm]

/-- A table that never holds more entries than it has slots is full exactly if it holds as many. -/
theorem Sound.full_iff (h : Sound limits v) :
    v.table.capacity ≤ v.table.entries.length ↔
      v.table.entries.length = max 1 v.limits.maxEntries := by
  have hsize : v.table.entries.length ≤ v.table.capacity := h.size_le
  rw [← h.slots_eq_max]
  omega

theorem Sound.maxPathLength_eq (h : Sound limits v) :
    v.table.maxPathLength = max 1 v.limits.maxPathLength := by
  rw [h.pathLength_eq, h.limits_eq, Nat.max_comm]

/-- The table takes an entry unless its path is empty, too long or taken, or no slot is free. -/
theorem Table.create_verdict (t : Table) (c : String) (isDirectory : Bool) (offset tick : Nat) :
    (t.create c isDirectory offset tick).1.map (fun _ => ()) =
      verdict
        [(c = "", .invalidPath),
          (t.maxPathLength < c.utf8ByteSize, .pathTooLong),
          (∃ e ∈ t.entries, e.path = c, .duplicateExists),
          (t.capacity ≤ t.entries.length, .tableFull)] := by
  have hcontains : t.contains c = true ↔ ∃ e ∈ t.entries, e.path = c := by
    simp [contains, find?]
  have hisFull : t.isFull = true ↔ t.capacity ≤ t.entries.length := decide_eq_true_iff
  rw [create]
  by_cases hempty : c = ""
  · rw [verdict_of_strikes hempty, if_pos (by simpa using hempty)]
    rfl
  rw [verdict_of_passes hempty, if_neg (by simpa using hempty)]
  by_cases hlong : t.maxPathLength < c.utf8ByteSize
  · rw [verdict_of_strikes hlong, if_pos hlong]
    rfl
  rw [verdict_of_passes hlong, if_neg hlong]
  by_cases htaken : ∃ e ∈ t.entries, e.path = c
  · rw [verdict_of_strikes htaken, if_pos (hcontains.mpr htaken)]
    rfl
  rw [verdict_of_passes htaken, if_neg (fun h => htaken (hcontains.mp h))]
  by_cases hfull : t.capacity ≤ t.entries.length
  · rw [verdict_of_strikes hfull, if_pos (hisFull.mpr hfull)]
    rfl
  · rw [verdict_of_passes hfull, if_neg (fun h => hfull (hisFull.mp h))]
    rfl

/-- Entries are made in the volume as in its table, under the limits the volume was made with. -/
theorem Sound.create_verdict (h : Sound limits v) (path : String) (isDirectory : Bool) :
    (v.create path isDirectory).1 = verdict (v.createChecks path) := by
  rw [createChecks]
  rcases keyOf_cases path with ⟨hempty, hkey⟩ | ⟨hpath, hkey⟩
  · rw [verdict_of_strikes hempty, create, hkey]
  · have hmade : (v.create path isDirectory).1 =
        (v.table.create (Path.normalize path) isDirectory v.arena.used (v.tick + 1)).1.map
          fun _ => () := by
      simp only [create, hkey]
      rcases v.table.create (Path.normalize path) isDirectory v.arena.used (v.tick + 1) with
        ⟨e | e, table⟩
      · rfl
      · rfl
    rw [hmade, Table.create_verdict, verdict_of_passes hpath,
      verdict_of_passes (Path.normalize_ne_empty path), h.maxPathLength_eq]
    simp only [h.full_iff]

/-! ### Finding a place for content -/

section Place

variable {x : Extent} {size : Nat}

theorem placeFor_of_fits (hfit : size ≤ x.length) : v.placeFor x size = (.ok x, v) := by
  rw [placeFor, if_pos (by simpa using hfit)]

theorem placeFor_of_inPlace (hgrow : x.length < size) (hpolicy : v.limits.growth = .inPlace) :
    v.placeFor x size = (.ok ⟨x.offset, size⟩, v) := by
  rw [placeFor, if_neg (by simpa using hgrow), hpolicy]

theorem placeFor_of_room (hgrow : x.length < size) (hpolicy : v.limits.growth = .relocate)
    (hroom : size ≤ v.arena.free) :
    v.placeFor x size = (.ok ⟨v.arena.used, size⟩, { v with arena := v.arena.advanced size }) := by
  rw [placeFor, if_neg (by simpa using hgrow), hpolicy]
  simp only [Arena.reserve_eq_ok hroom]

theorem placeFor_of_no_room (hgrow : x.length < size) (hpolicy : v.limits.growth = .relocate)
    (hroom : v.arena.free < size) : v.placeFor x size = (.error .outOfSpace, v) := by
  rw [placeFor, if_neg (by simpa using hgrow), hpolicy]
  simp only [Arena.reserve_eq_error hroom]

end Place

/-- Content of a file is replaced unless it outgrows its extent and there is too little space left
to move to, or too little of the arena to grow into. -/
theorem Sound.overwrite_verdict (h : Sound limits v) {e : Entry}
    (hfound : v.table.find? c = some e) :
    (v.overwrite c e.extent bytes).1 =
      verdict [(v.Overruns e.extent bytes.length, .outOfSpace)] := by
  -- Once a place is found, nothing but the end of the arena can stand in the way.
  have hsettle : ∀ (place : Extent) (w : Volume), w.table = v.table →
      place.offset + bytes.length ≤ w.arena.capacity → (w.settle c place bytes).1 = .ok () := by
    intro place w htable hend
    rw [settle_eq_ok (htable ▸ hfound) hend]
  rw [overwrite]
  by_cases hfit : bytes.length ≤ e.extent.length
  · have hinside := (h.entries e (Table.mem_of_find? hfound)).inside
    rw [← h.capacity_eq] at hinside
    rw [verdict_of_passes (fun hover => Nat.not_lt.mpr hfit hover.1), placeFor_of_fits hfit]
    exact hsettle _ v rfl (by omega)
  have hgrow := Nat.lt_of_not_le hfit
  cases hpolicy : v.limits.growth with
  | relocate =>
    by_cases hroom : bytes.length ≤ v.arena.free
    · rw [verdict_of_passes (by simp [Overruns, hpolicy, hroom]),
        placeFor_of_room hgrow hpolicy hroom]
      exact hsettle _ _ rfl (h.fits_of_room hroom)
    · have hnone := Nat.lt_of_not_le hroom
      rw [verdict_of_strikes ⟨hgrow, Or.inl ⟨hpolicy, hnone⟩⟩,
        placeFor_of_no_room hgrow hpolicy hnone]
  | inPlace =>
    rw [placeFor_of_inPlace hgrow hpolicy]
    by_cases hend : e.extent.offset + bytes.length ≤ v.arena.capacity
    · rw [verdict_of_passes (by simp [Overruns, hpolicy, hend])]
      exact hsettle _ v rfl hend
    · have hpast := Nat.lt_of_not_le hend
      rw [verdict_of_strikes ⟨hgrow, Or.inr ⟨hpolicy, hpast⟩⟩]
      show (v.settle c ⟨e.extent.offset, bytes.length⟩ bytes).1 = _
      rw [settle, Arena.write_eq_error hpast]

/-- A file with content is made where there is none unless there is too little space left, the path
is too long or no slot is free. -/
theorem Sound.writeFresh_verdict (h : Sound limits v) (hc : c ≠ "")
    (hnew : v.table.find? c = none) :
    (v.writeFresh c bytes).1 =
      verdict
        [(v.arena.free < bytes.length, .outOfSpace),
          (max 1 v.limits.maxPathLength < c.utf8ByteSize, .pathTooLong),
          (v.table.entries.length = max 1 v.limits.maxEntries, .tableFull)] := by
  have htaken : ¬ ∃ e ∈ v.table.entries, e.path = c := by
    simpa using Table.find?_eq_none_iff.mp hnew
  by_cases hroom : bytes.length ≤ v.arena.free
  · -- The table decides: once it has taken the entry, nothing else can fail.
    have hmade : (v.writeFresh c bytes).1 =
        (v.table.create c false v.arena.used (v.tick + 1)).1.map fun _ => () := by
      simp only [writeFresh, Arena.hasRoom, hroom, decide_true, if_true]
      rcases v.table.create c false v.arena.used (v.tick + 1) with ⟨e | e, table⟩
      · rfl
      · exact congrArg Prod.fst
          (fill_eq_ok (v := { v with table := table, tick := v.tick + 1 }) h.used_le hroom)
    rw [verdict_of_passes (Nat.not_lt.mpr hroom), hmade, Table.create_verdict, verdict_of_passes hc,
      h.maxPathLength_eq]
    simp only [verdict_cons, htaken, decide_false, Bool.false_eq_true, if_false, h.full_iff]
  · have hnone : v.arena.hasRoom bytes.length = false := decide_eq_false hroom
    rw [verdict_of_strikes (Nat.lt_of_not_le hroom), writeFresh, hnone, if_neg Bool.false_ne_true]

/-! ### Writing -/

theorem Sound.write_verdict (h : Sound limits v) (path : String) (bytes : Bytes) :
    (v.write path bytes).1 = verdict (v.writeChecks path bytes.length) := by
  rw [writeChecks]
  simp only [Table.exists_path_iff h.distinct, ← Table.find?_eq_none_iff]
  rcases keyOf_cases path with ⟨hempty, hkey⟩ | ⟨hpath, hkey⟩
  · rw [verdict_of_strikes hempty, write, hkey]
  rw [verdict_of_passes hpath, write, hkey]
  by_cases hlarge : v.limits.maxFileSize < bytes.length
  · rw [verdict_of_strikes hlarge]
    simp only [if_pos hlarge]
  rw [verdict_of_passes hlarge]
  simp only [if_neg hlarge]
  cases hfound : v.table.find? (Path.normalize path) with
  | none =>
    simp only [reduceCtorEq, false_and, exists_false, decide_false, true_and]
    exact h.writeFresh_verdict (Path.normalize_ne_empty path) hfound
  | some e =>
    simp only [Option.some.injEq, exists_eq_left', reduceCtorEq, false_and, decide_false]
    by_cases hdir : e.isDirectory = true
    · rw [verdict_of_strikes hdir, if_pos hdir]
    · rw [verdict_of_passes hdir, if_neg hdir]
      exact h.overwrite_verdict hfound

/-! ### Every reachable volume -/

/-- In every reachable volume, the first check that strikes decides what is answered to a write and
to a creation, and if none strikes they succeed. -/
theorem write_and_create_verdicts (h : Reachable limits v) :
    v.limits = limits ∧ v.arena.capacity = limits.arenaCapacity ∧
      (∀ path bytes, (v.write path bytes).1 = verdict (v.writeChecks path bytes.length)) ∧
      ∀ path isDirectory, (v.create path isDirectory).1 = verdict (v.createChecks path) := by
  have hs := sound_of_reachable h
  exact ⟨hs.limits_eq, hs.capacity_eq, hs.write_verdict, hs.create_verdict⟩

/-- A volume with one free byte and no free slot. The last file grows by just this byte in place and
by no more; the first one has nowhere to move to; and the reasons against a new file come out in
their order. -/
theorem verdicts_in_full_volume :
    let spilling := ((ofLimits ⟨3, 8, 4, 5, .inPlace⟩).serve
      [.write "/a" [1, 2], .write "/b" [3]]).2
    let moving := ((ofLimits ⟨3, 8, 4, 5, .relocate⟩).serve
      [.write "/a" [1, 2], .write "/b" [3]]).2
    (spilling.write "b" [3, 4]).1 = .ok () ∧
      (spilling.write "/b" [3, 4, 5]).1 = .error .outOfSpace ∧
      (moving.write "/a" [1, 2]).1 = .ok () ∧
      (moving.write "/b" [3, 4]).1 = .error .outOfSpace ∧
      (moving.write "/abcde" [1, 2]).1 = .error .outOfSpace ∧
      (moving.write "/abcde" [1]).1 = .error .pathTooLong ∧
      (moving.write "/abcd" [1]).1 = .error .tableFull ∧
      (moving.write "/a/.." [1, 2, 3, 4, 5, 6, 7, 8]).1 = .error .cannotWriteDirectory ∧
      (moving.write "/a/.." [1, 2, 3, 4, 5, 6, 7, 8, 9]).1 = .error .tooLarge ∧
      (moving.create "/abcde" true).1 = .error .pathTooLong ∧
      (moving.create "a/b/.." true).1 = .error .duplicateExists ∧
      (moving.create "/c" true).1 = .error .tableFull := by
  intro spilling moving
  have hspilling : Reachable ⟨3, 8, 4, 5, .inPlace⟩ spilling := Reachable.serve .start _
  have hmoving : Reachable ⟨3, 8, 4, 5, .relocate⟩ moving := Reachable.serve .start _
  obtain ⟨-, -, hspill, -⟩ := write_and_create_verdicts hspilling
  obtain ⟨-, -, hwrite, hcreate⟩ := write_and_create_verdicts hmoving
  simp only [hspill, hwrite, hcreate]
  decide

end RamShell.Volume
