import RamShell.Proofs.Volume.LastWrite
import RamShell.Proofs.Volume.Refusal
/-!
# RamShell.Proofs.Volume.Commute

Writes to different paths commute in a volume that relocates. Which of two writes comes first
decides where their contents lie in the arena, in which order new files stand in the table and which
ticks they carry. None of this can be told from what the paths name, read and allow (`Alike`).

The two writes draw on the same arena and on the same slots, so it has to be shown that the second
order does not run out of either. What a write needs (`Admits`) depends on the entry at its own path,
and what it leaves (`Replaced`) are the other entries as they were and all that it did not take. A
second write is therefore possible exactly if there was enough for both from the start
(`Replaced.admits_iff`), and that does not depend on which one comes first. The main statement is
`writes_commute`.
-/

namespace RamShell.Volume

variable {limits : Limits} {v w : Volume} {c d path : String} {bytes : Bytes} {size : Nat}

/-! ### What a write needs -/

/-- How many slots a write to a canonical path takes: one for a new file. -/
def slotsFor (v : Volume) (c : String) : Nat :=
  match v.table.find? c with
  | none => 1
  | some _ => 0

/-- What a volume that relocates needs for content of `size` bytes at a canonical path. -/
structure Admits (v : Volume) (c : String) (size : Nat) : Prop where
  /-- The content is within the size limit. -/
  small : size ≤ v.limits.maxFileSize
  /-- The path does not name a directory. -/
  file : ∀ e, v.table.find? c = some e → e.isDirectory = false
  /-- A new path is within the length limit. -/
  short : v.table.find? c = none → c.utf8ByteSize ≤ max 1 v.limits.maxPathLength
  /-- There is space for what has to be handed out. -/
  room : v.demand c size ≤ v.arena.free
  /-- There is a slot for a new file. -/
  slot : v.table.entries.length + v.slotsFor c ≤ max 1 v.limits.maxEntries

theorem admits_of_missing (hnew : v.table.find? c = none) :
    v.Admits c size ↔
      size ≤ v.limits.maxFileSize ∧ size ≤ v.arena.free ∧
        c.utf8ByteSize ≤ max 1 v.limits.maxPathLength ∧
        v.table.entries.length < max 1 v.limits.maxEntries := by
  have hdemand : v.demand c size = size := by rw [demand, hnew]
  have hslots : v.slotsFor c = 1 := by rw [slotsFor, hnew]
  constructor
  · intro h
    have hslot := h.slot
    rw [hslots] at hslot
    exact ⟨h.small, hdemand ▸ h.room, h.short hnew, hslot⟩
  · rintro ⟨hsmall, hroom, hshort, hslot⟩
    exact
      { small := hsmall
        file := fun e he => absurd (hnew.symm.trans he) (by simp)
        short := fun _ => hshort
        room := hdemand.symm ▸ hroom
        slot := hslots.symm ▸ hslot }

theorem Sound.admits_of_found (h : Sound limits v) {e : Entry} (he : v.table.find? c = some e) :
    v.Admits c size ↔
      size ≤ v.limits.maxFileSize ∧ e.isDirectory = false ∧
        (e.extent.length < size → size ≤ v.arena.free) := by
  have hdemand : v.demand c size = if e.extent.length < size then size else 0 := by rw [demand, he]
  have hslots : v.slotsFor c = 0 := by rw [slotsFor, he]
  constructor
  · intro ha
    refine ⟨ha.small, ha.file e he, fun hgrow => ?_⟩
    have hroom := ha.room
    rwa [hdemand, if_pos hgrow] at hroom
  · rintro ⟨hsmall, hfile, hroom⟩
    exact
      { small := hsmall
        file := fun d hd => Option.some.inj (he.symm.trans hd) ▸ hfile
        short := fun hnew => absurd (hnew.symm.trans he) (by simp)
        room := by
          rw [hdemand]
          split
          · next hgrow => exact hroom hgrow
          · exact Nat.zero_le _
        slot := by
          rw [hslots, ← h.slots_eq_max]
          exact h.size_le }

/-- A write succeeds exactly if there is what it needs. -/
theorem Sound.write_eq_ok_iff (h : Sound limits v) (hpolicy : v.limits.growth = .relocate) :
    (v.write path bytes).1 = .ok () ↔
      path ≠ "" ∧ v.Admits (Path.normalize path) bytes.length := by
  rw [h.write_verdict, verdict_eq_ok_iff, writeChecks]
  simp only [Table.exists_path_iff h.distinct, ← Table.find?_eq_none_iff, List.forall_mem_cons,
    decide_eq_false_iff_not, Overruns, hpolicy]
  cases hfound : v.table.find? (Path.normalize path) with
  | none =>
    -- The table is never overfull, so a slot is free as soon as not all of them are taken.
    have hslot : v.table.entries.length < max 1 v.limits.maxEntries ↔
        v.table.entries.length ≠ max 1 v.limits.maxEntries := by
      have hsize : v.table.entries.length ≤ v.table.capacity := h.size_le
      rw [h.slots_eq_max] at hsize
      omega
    rw [admits_of_missing hfound, hslot]
    simp only [true_and, Nat.not_lt]
    simp
  | some e =>
    rw [h.admits_of_found hfound]
    simp

/-! ### What a write leaves -/

/-- The permissions of each canonical path that has an entry. -/
def modes (v : Volume) (p : String) : Option Permissions := (v.table.find? p).map Entry.permissions

/-- What a write of `bytes` to the canonical path `c` leaves of a volume that relocates. -/
structure Replaced (v : Volume) (c : String) (bytes : Bytes) (w : Volume) : Prop where
  /-- The limits stay. -/
  limits : w.limits = v.limits
  /-- The arena keeps its size. -/
  capacity : w.arena.capacity = v.arena.capacity
  /-- The entries of other paths stay. -/
  others : ∀ p, p ≠ c → w.table.find? p = v.table.find? p
  /-- Space was handed out as needed. -/
  used : w.arena.used = v.arena.used + v.demand c bytes.length
  /-- A slot was taken as needed. -/
  length : w.table.entries.length = v.table.entries.length + v.slotsFor c
  /-- One tick was taken. -/
  tick : w.tick = v.tick + 1
  /-- The path holds the bytes. -/
  contents : w.contents = v.contents.assign c (some (.file bytes))
  /-- A new file has the standard permissions, and one that was there keeps its own. -/
  modes : w.modes = Function.update v.modes c (some ((v.modes c).getD .standard))

theorem modes_insert {e : Entry} (hnew : v.table.find? e.path = none)
    (htable : w.table = v.table.insert e) :
    w.modes = Function.update v.modes e.path (some e.permissions) := by
  funext p
  rw [modes, htable, Table.find?_insert hnew, Function.update_apply]
  split
  · rfl
  · rfl

theorem modes_update {f : Entry → Entry} (hf : ∀ e, (f e).path = e.path) {e : Entry}
    (hfound : v.table.find? c = some e) (htable : w.table = v.table.update c f) :
    w.modes = Function.update v.modes c (some (f e).permissions) := by
  funext p
  rw [modes, htable, Table.find?_update hf, Function.update_apply]
  split
  · next hp =>
    rw [hp, hfound]
    rfl
  · rfl

theorem Effect.replaced (he : Effect v (.write path bytes) w) (hs : Sound limits v) (hl : Laid v)
    (hpolicy : limits.growth = .relocate) : Replaced v (Path.normalize path) bytes w := by
  have hgrowth : v.limits.growth = .relocate := hs.limits_eq ▸ hpolicy
  have hused := used_of_write hgrowth he
  have hcontents := contents_effect hs hl hpolicy he
  cases he with
  | filed _ _ _ hnew =>
    have hmodes : v.modes (Path.normalize path) = none := by rw [modes, hnew, Option.map_none]
    exact
      { limits := rfl
        capacity := rfl
        others := by
          intro p hp
          rw [Table.find?_insert hnew]
          exact if_neg hp
        used := hused
        length := by
          rw [slotsFor, hnew]
          exact List.length_append
        tick := rfl
        contents := hcontents
        modes := by
          rw [hmodes]
          exact modes_insert (e := .filled ..) hnew rfl }
  | @rewritten path bytes e place arena _ _ hfound _ hplace _ =>
    have hmodes : v.modes (Path.normalize path) = some e.permissions := by
      rw [modes, hfound, Option.map_some]
    exact
      { limits := rfl
        capacity := hplace.capacity_eq
        others := by
          intro p hp
          rw [Table.find?_update (Entry.withContent_path _ _ _)]
          exact if_neg hp
        used := hused
        length := by
          rw [slotsFor, hfound]
          exact Table.length_update _ _ _
        tick := rfl
        contents := hcontents
        modes := by
          rw [hmodes]
          exact modes_update (Entry.withContent_path bytes.length place (v.tick + 1)) hfound rfl }

/-! ### Two writes -/

/-- What a volume that relocates needs for content at two canonical paths: what each of them needs,
and space and slots for both together. -/
structure AdmitsBoth (v : Volume) (c : String) (size : Nat) (d : String) (size' : Nat) : Prop where
  /-- The first content alone could be written. -/
  first : v.Admits c size
  /-- The second content alone could be written. -/
  second : v.Admits d size'
  /-- There is space for both. -/
  room : v.demand c size + v.demand d size' ≤ v.arena.free
  /-- There are slots for both. -/
  slot : v.table.entries.length + v.slotsFor c + v.slotsFor d ≤ max 1 v.limits.maxEntries

theorem AdmitsBoth.symm {size' : Nat} (h : v.AdmitsBoth c size d size') :
    v.AdmitsBoth d size' c size where
  first := h.second
  second := h.first
  room := by
    rw [Nat.add_comm]
    exact h.room
  slot := by
    rw [Nat.add_right_comm]
    exact h.slot

namespace Replaced

theorem free_eq (h : Replaced v c bytes w) :
    w.arena.free = v.arena.free - v.demand c bytes.length := by
  rw [Arena.free, Arena.free, h.capacity, h.used, Nat.sub_sub]

theorem demand_eq (h : Replaced v c bytes w) (hne : d ≠ c) (size : Nat) :
    w.demand d size = v.demand d size := by
  rw [demand, demand, h.others d hne]

theorem slotsFor_eq (h : Replaced v c bytes w) (hne : d ≠ c) : w.slotsFor d = v.slotsFor d := by
  rw [slotsFor, slotsFor, h.others d hne]

/-- A second write finds what it needs exactly if there was enough for both from the start. -/
theorem admits_iff (h : Replaced v c bytes w) (hne : d ≠ c) (hfirst : v.Admits c bytes.length) :
    w.Admits d size ↔ v.AdmitsBoth c bytes.length d size := by
  have hfree := h.free_eq
  have hroom := hfirst.room
  have hothers := h.others d hne
  have hdemand := h.demand_eq hne size
  have hslots := h.slotsFor_eq hne
  constructor
  · intro hw
    have hspace := hw.room
    have hslot := hw.slot
    rw [hdemand] at hspace
    rw [hslots, h.length, h.limits] at hslot
    exact
      { first := hfirst
        second :=
          { small := h.limits ▸ hw.small
            file := hothers ▸ hw.file
            short := h.limits ▸ hothers ▸ hw.short
            room := by omega
            slot := by omega }
        room := by omega
        slot := hslot }
  · intro hboth
    have hspace := hboth.room
    exact
      { small := h.limits.symm ▸ hboth.second.small
        file := hothers.symm ▸ hboth.second.file
        short := h.limits.symm ▸ hothers.symm ▸ hboth.second.short
        room := by
          rw [hdemand]
          omega
        slot := by
          rw [hslots, h.length, h.limits]
          exact hboth.slot }

end Replaced

/-! ### What can be told of a volume -/

/-- Two volumes that cannot be told apart by what paths name, read and allow, nor by how much was
handed out. Where contents lie, how the entries are ordered and which ticks they carry may differ. -/
structure Alike (v w : Volume) : Prop where
  /-- The same paths have entries. -/
  paths : (v.table.entries.map Entry.path).Perm (w.table.entries.map Entry.path)
  /-- Every path names the same kind of entry. -/
  kinds : ∀ path, v.kindAt path = w.kindAt path
  /-- Every path reads the same. -/
  reads : ∀ path, v.readAll path = w.readAll path
  /-- Every path has the same permissions. -/
  permissions : ∀ path,
    (v.find? path).map Entry.permissions = (w.find? path).map Entry.permissions
  /-- The cursor stands at the same place. -/
  used : v.arena.used = w.arena.used
  /-- There are as many entries. -/
  size : v.table.size = w.table.size
  /-- The clock shows the same tick. -/
  tick : v.tick = w.tick

theorem Contents.assign_comm (m : Contents) (hne : c ≠ d) (held held' : Option Held) :
    (m.assign c held).assign d held' = (m.assign d held').assign c held := by
  funext p
  simp only [assign]
  by_cases hc : p = c
  · rw [if_neg (hc ▸ hne), if_pos hc, if_pos hc]
  · rw [if_neg hc, if_neg hc]

theorem mem_paths_iff {p : String} :
    p ∈ v.table.entries.map Entry.path ↔ v.contents p ≠ none := by
  rw [ne_eq, contents_eq_none_iff, Table.find?_eq_none_iff]
  simp

/-- What can be told of a volume is its two maps and its three counters. -/
theorem alike_of_maps_eq (hv : v.table.Distinct) (hw : w.table.Distinct)
    (hcontents : v.contents = w.contents) (hmodes : v.modes = w.modes)
    (hused : v.arena.used = w.arena.used)
    (hlength : v.table.entries.length = w.table.entries.length) (htick : v.tick = w.tick) :
    Alike v w where
  paths := by
    refine (List.perm_ext_iff_of_nodup hv hw).mpr fun p => ?_
    rw [mem_paths_iff, mem_paths_iff, hcontents]
  kinds := by
    intro path
    by_cases hpath : path = ""
    · subst hpath
      rfl
    · rw [kindAt_eq hpath, kindAt_eq hpath, hcontents]
  reads := by
    intro path
    by_cases hpath : path = ""
    · subst hpath
      rfl
    · rw [readAll_eq hpath, readAll_eq hpath, hcontents]
  permissions := by
    intro path
    by_cases hpath : path = ""
    · subst hpath
      rfl
    · rw [find?_eq hpath, find?_eq hpath]
      exact congrFun hmodes _
  used := hused
  size := hlength
  tick := htick

/-- The order of two writes cannot be told from what they leave. -/
theorem Replaced.alike {v₁ v₂ w₁ w₂ : Volume} {a b : Bytes} (hne : c ≠ d)
    (hc : Replaced v c a v₁) (hcd : Replaced v₁ d b v₂)
    (hd : Replaced v d b w₁) (hdc : Replaced w₁ c a w₂)
    (hv : v₂.table.Distinct) (hw : w₂.table.Distinct) : Alike v₂ w₂ := by
  have hused : v₂.arena.used = w₂.arena.used := by
    rw [hcd.used, hc.used, hdc.used, hd.used, hc.demand_eq hne.symm, hd.demand_eq hne,
      Nat.add_right_comm]
  have hlength : v₂.table.entries.length = w₂.table.entries.length := by
    rw [hcd.length, hc.length, hdc.length, hd.length, hc.slotsFor_eq hne.symm, hd.slotsFor_eq hne,
      Nat.add_right_comm]
  have hcontents : v₂.contents = w₂.contents := by
    rw [hcd.contents, hc.contents, hdc.contents, hd.contents, Contents.assign_comm _ hne]
  have hmodes : v₂.modes = w₂.modes := by
    -- Each write only looks at the permissions of its own path, which the other one leaves.
    rw [hcd.modes, hc.modes, hdc.modes, hd.modes, Function.update_of_ne hne.symm,
      Function.update_of_ne hne, Function.update_comm hne]
  have htick : v₂.tick = w₂.tick := by rw [hcd.tick, hc.tick, hdc.tick, hd.tick]
  exact alike_of_maps_eq hv hw hcontents hmodes hused hlength htick

/-! ### Every reachable volume -/

/-- A write to a reachable volume that relocates leaves what `Replaced` says, and the volume is
reachable again. -/
theorem replaced_of_write (hpolicy : limits.growth = .relocate) (h : Reachable limits v)
    (hok : v.write path bytes = (.ok (), w)) :
    path ≠ "" ∧ v.Admits (Path.normalize path) bytes.length ∧
      Replaced v (Path.normalize path) bytes w ∧ Reachable limits w := by
  have hs := sound_of_reachable h
  have heffect : Effect v (.write path bytes) w := effect_of_ok hs.used_le hok
  have hstep := h.step (.write path bytes)
  rw [answer, Reply.ofResult, hok] at hstep
  obtain ⟨hpath, hadmits⟩ :=
    (hs.write_eq_ok_iff (hs.limits_eq ▸ hpolicy)).mp (congrArg Prod.fst hok)
  exact ⟨hpath, hadmits, heffect.replaced hs (laid_of_reachable hpolicy h) hpolicy, hstep⟩

theorem write_of_admits (hpolicy : limits.growth = .relocate) (h : Reachable limits v)
    (hpath : path ≠ "") (hadmits : v.Admits (Path.normalize path) bytes.length) :
    ∃ w, v.write path bytes = (.ok (), w) := by
  have hs := sound_of_reachable h
  have hok : (v.write path bytes).1 = .ok () :=
    (hs.write_eq_ok_iff (hs.limits_eq ▸ hpolicy)).mpr ⟨hpath, hadmits⟩
  exact ⟨_, Prod.ext hok rfl⟩

/-- In every reachable volume that relocates, two writes to different paths that succeed one after
the other succeed in the other order too. The volumes that they leave hold the same paths with the
same kinds, contents and permissions, and have handed out as much space, as many slots and as many
ticks. -/
theorem writes_commute (hpolicy : limits.growth = .relocate) (h : Reachable limits v)
    {p q : String} {a b : Bytes} {v₁ v₂ : Volume} (hne : Path.normalize p ≠ Path.normalize q)
    (hp : v.write p a = (.ok (), v₁)) (hq : v₁.write q b = (.ok (), v₂)) :
    ∃ w₁ w₂, v.write q b = (.ok (), w₁) ∧ w₁.write p a = (.ok (), w₂) ∧ Alike v₂ w₂ := by
  obtain ⟨hpath, hpneeds, hpleft, h₁⟩ := replaced_of_write hpolicy h hp
  obtain ⟨hqpath, hqneeds, hqleft, h₂⟩ := replaced_of_write hpolicy h₁ hq
  -- That the second write went through says that there was enough for both.
  have hboth := (hpleft.admits_iff hne.symm hpneeds).mp hqneeds
  obtain ⟨w₁, hfirst⟩ := write_of_admits hpolicy h hqpath hboth.second
  obtain ⟨-, -, hqleft', k₁⟩ := replaced_of_write hpolicy h hfirst
  have hpneeds' := (hqleft'.admits_iff hne hboth.second).mpr hboth.symm
  obtain ⟨w₂, hsecond⟩ := write_of_admits hpolicy k₁ hpath hpneeds'
  obtain ⟨-, -, hpleft', k₂⟩ := replaced_of_write hpolicy k₁ hsecond
  refine ⟨w₁, w₂, hfirst, hsecond, ?_⟩
  exact hpleft.alike hne hqleft hqleft' hpleft' (sound_of_reachable h₂).distinct
    (sound_of_reachable k₂).distinct

/-- A file that moves and one that is made, together with all space and all slots that are left. The
two orders put the contents at different places and give the entries different ticks. -/
theorem writes_commute_up_to_layout :
    let v := ((ofLimits ⟨4, 8, 7, 9, .relocate⟩).serve
      [.write "/a" [1], .create "/d" true, .setPermissions "/a" 0o600]).2
    let v₁ := (v.write "/a" [2, 3, 4]).2
    let v₂ := (v₁.write "d/../d/b" [5, 6, 7]).2
    let w₁ := (v.write "d/../d/b" [5, 6, 7]).2
    let w₂ := (w₁.write "/a" [2, 3, 4]).2
    v.write "/a" [2, 3, 4] = (.ok (), v₁) ∧ v₁.write "d/../d/b" [5, 6, 7] = (.ok (), v₂) ∧
      v.write "d/../d/b" [5, 6, 7] = (.ok (), w₁) ∧ w₁.write "/a" [2, 3, 4] = (.ok (), w₂) ∧
      Alike v₂ w₂ ∧ v₂.arena.free = 0 ∧ v₂.table.isFull = true ∧
      v₂.table.entries.map (fun e => (e.path, e.extent.offset, e.modifiedTick)) =
        [("/", 0, 1), ("/a", 1, 5), ("/d", 1, 3), ("/d/b", 4, 6)] ∧
      w₂.table.entries.map (fun e => (e.path, e.extent.offset, e.modifiedTick)) =
        [("/", 0, 1), ("/a", 4, 6), ("/d", 1, 3), ("/d/b", 1, 5)] := by
  intro v v₁ v₂ w₁ w₂
  have hv : Reachable ⟨4, 8, 7, 9, .relocate⟩ v := Reachable.serve .start _
  have hfirst : v.write "/a" [2, 3, 4] = (.ok (), v₁) := by decide
  have hsecond : v₁.write "d/../d/b" [5, 6, 7] = (.ok (), v₂) := by decide
  obtain ⟨x₁, x₂, hx₁, hx₂, halike⟩ := writes_commute rfl hv (by decide) hfirst hsecond
  obtain rfl : x₁ = w₁ := (congrArg Prod.snd hx₁).symm
  obtain rfl : x₂ = w₂ := (congrArg Prod.snd hx₂).symm
  exact ⟨hfirst, hsecond, hx₁, hx₂, halike, by decide, by decide, by decide, by decide⟩

end RamShell.Volume
