import RamShell.Proofs.Path.Canonical
import RamShell.Proofs.Volume.Change
/-!
# RamShell.Proofs.Volume.Sound

The invariant that every volume keeps, whatever its limits and its growth policy are. `Sound`
collects it: the bounds are those the volume was made with, paths are distinct and canonical, the
root comes first, and every extent lies inside the arena and holds the content of its entry.

A fresh volume is sound (`sound_ofLimits`), and every change that takes place keeps a volume sound
(`Sound.effect`). Dropping everything makes a sound volume fresh again (`Sound.reset_eq`).
-/

namespace RamShell.Volume

/-- What holds of every entry of a volume with the given limits. -/
structure Entry.Sound (limits : Limits) (e : Entry) : Prop where
  /-- The path is in the one spelling that lookups use. -/
  canonical : Path.Canonical e.path
  /-- The path is within the length limit, or is the root. -/
  short : e.path.utf8ByteSize ≤ max limits.maxPathLength 1
  /-- The content is within the size limit. -/
  size_le_max : e.size ≤ limits.maxFileSize
  /-- The content stays inside its extent. -/
  size_le_length : e.size ≤ e.extent.length
  /-- The extent stays inside the arena. -/
  inside : e.extent.offset + e.extent.length ≤ limits.arenaCapacity
  /-- A directory has no content and no space. -/
  bare : e.isDirectory = true → e.size = 0 ∧ e.extent.length = 0

/-- What holds of every volume with the given limits. -/
structure Sound (limits : Limits) (v : Volume) : Prop where
  /-- The limits never change. -/
  limits_eq : v.limits = limits
  /-- The table has room for the root. -/
  slots_eq : v.table.capacity = max limits.maxEntries 1
  /-- The length limit admits the root. -/
  pathLength_eq : v.table.maxPathLength = max limits.maxPathLength 1
  /-- The arena has the size that was asked for. -/
  capacity_eq : v.arena.capacity = limits.arenaCapacity
  /-- The cursor is inside the arena. -/
  used_le : v.arena.used ≤ v.arena.capacity
  /-- No path has two entries. -/
  distinct : v.table.Distinct
  /-- The table is not overfull. -/
  size_le : v.table.size ≤ v.table.capacity
  /-- The root is the first entry. -/
  root : ∃ e, v.table.entries.head? = some e ∧ e.path = Path.root ∧ e.isDirectory = true
  /-- Every entry is sound. -/
  entries : ∀ e ∈ v.table.entries, e.Sound limits

/-! ### A fresh volume -/

/-- The entry of the root directory as it is made. -/
def rootEntry : Entry := .empty Path.root true 0 1

/-- A fresh volume holds the root and nothing else. -/
theorem ofLimits_eq (limits : Limits) :
    ofLimits limits =
      { limits := limits
        table := ⟨[rootEntry], max limits.maxEntries 1, max limits.maxPathLength 1⟩
        arena := .zeroed limits.arenaCapacity
        tick := 1 } := by
  have hshort : Path.root.utf8ByteSize ≤ max limits.maxPathLength 1 := by
    have : Path.root.utf8ByteSize = 1 := by decide
    omega
  have hcreate : (Table.empty (max limits.maxEntries 1) (max limits.maxPathLength 1)).create
      Path.root true 0 1 = _ :=
    Table.create_eq_insert (by decide) hshort rfl (Nat.le_max_right ..)
  unfold ofLimits withRoot
  simp only [Arena.zeroed, Nat.zero_add, hcreate]
  rfl

theorem find?_ofLimits (limits : Limits) (p : String) :
    (ofLimits limits).table.find? p = if p = Path.root then some rootEntry else none := by
  rw [ofLimits_eq]
  by_cases hp : p = Path.root
  · subst hp
    rfl
  · rw [if_neg hp, Table.find?_eq_none_iff]
    intro e he
    rw [List.mem_singleton.mp he]
    exact Ne.symm hp

theorem sound_rootEntry (limits : Limits) : rootEntry.Sound limits where
  canonical := Path.canonical_root
  short := by
    have : rootEntry.path.utf8ByteSize = 1 := by decide
    omega
  size_le_max := Nat.zero_le _
  size_le_length := Nat.le_refl _
  inside := Nat.zero_le _
  bare := fun _ => ⟨rfl, rfl⟩

theorem sound_ofLimits (limits : Limits) : Sound limits (ofLimits limits) := by
  rw [ofLimits_eq]
  exact
    { limits_eq := rfl
      slots_eq := rfl
      pathLength_eq := rfl
      capacity_eq := rfl
      used_le := Nat.zero_le _
      distinct := List.nodup_singleton _
      size_le := Nat.le_max_right ..
      root := ⟨rootEntry, rfl, rfl, rfl⟩
      entries := fun e he => List.mem_singleton.mp he ▸ sound_rootEntry limits }

namespace Sound

variable {limits : Limits} {v w : Volume} {c : Change}

/-- Dropping everything leaves a fresh volume. -/
theorem reset_eq (h : Sound limits v) : v.reset = ofLimits limits := by
  unfold reset ofLimits Table.clear Arena.reset Table.empty
  rw [h.limits_eq, h.slots_eq, h.pathLength_eq, h.capacity_eq]

/-! ### What a change keeps -/

theorem find?_root (h : Sound limits v) :
    ∃ e, v.table.find? Path.root = some e ∧ e.isDirectory = true := by
  obtain ⟨e, hhead, hpath, hdir⟩ := h.root
  have hmem : e ∈ v.table.entries := List.mem_of_head? hhead
  exact ⟨e, hpath ▸ Table.find?_of_mem h.distinct hmem, hdir⟩

/-- An entry is found under every spelling of its path. -/
theorem find?_of_path (h : Sound limits v) {e : Entry} (he : e ∈ v.table.entries) {path : String}
    (hpath : path ≠ "") (hplace : e.path = Path.normalize path) : v.find? path = some e := by
  rw [find?_eq hpath, ← hplace]
  exact Table.find?_of_mem h.distinct he

/-- A sound entry put at the end under a new path. -/
theorem insert (h : Sound limits v) {e : Entry} (he : e.Sound limits)
    (hnew : v.table.find? e.path = none) (hslot : v.table.size < v.table.capacity) (arena : Arena)
    (hcap : arena.capacity = v.arena.capacity) (hused : arena.used ≤ arena.capacity) (tick : Nat) :
    Sound limits { v with table := v.table.insert e, arena := arena, tick := tick } where
  limits_eq := h.limits_eq
  slots_eq := h.slots_eq
  pathLength_eq := h.pathLength_eq
  capacity_eq := hcap.trans h.capacity_eq
  used_le := hused
  distinct := Table.distinct_insert h.distinct hnew
  size_le := by
    show (v.table.entries ++ [e]).length ≤ v.table.capacity
    rw [List.length_append]
    exact hslot
  root := by
    obtain ⟨r, hhead, hr⟩ := h.root
    refine ⟨r, ?_, hr⟩
    show (v.table.entries ++ [e]).head? = some r
    rw [List.head?_append, hhead]
    rfl
  entries := by
    intro d hd
    rcases Table.mem_insert.mp hd with hd | rfl
    · exact h.entries d hd
    · exact he

/-- A change of one record that keeps its path and its kind. -/
theorem update (h : Sound limits v) {path : String} {e : Entry} {f : Entry → Entry}
    (hpath : ∀ e, (f e).path = e.path) (hkind : ∀ e, (f e).isDirectory = e.isDirectory)
    (hfound : v.table.find? path = some e) (he : (f e).Sound limits) (arena : Arena)
    (hcap : arena.capacity = v.arena.capacity) (hused : arena.used ≤ arena.capacity) (tick : Nat) :
    Sound limits { v with table := v.table.update path f, arena := arena, tick := tick } where
  limits_eq := h.limits_eq
  slots_eq := h.slots_eq
  pathLength_eq := h.pathLength_eq
  capacity_eq := hcap.trans h.capacity_eq
  used_le := hused
  distinct := Table.distinct_update h.distinct hpath
  size_le := by
    show (v.table.update path f).entries.length ≤ v.table.capacity
    rw [Table.length_update]
    exact h.size_le
  root := by
    obtain ⟨r, hhead, hr, hdir⟩ := h.root
    refine ⟨if r.path = path then f r else r, ?_, ?_, ?_⟩
    · show (v.table.update path f).entries.head? = _
      rw [Table.head?_update, hhead]
      rfl
    · split
      · rw [hpath, hr]
      · exact hr
    · split
      · rw [hkind, hdir]
      · exact hdir
  entries := by
    intro d hd
    rcases (Table.mem_update h.distinct hpath hfound).mp hd with rfl | ⟨hd, -⟩
    · exact he
    · exact h.entries d hd

theorem without (h : Sound limits v) {path : String} {e : Entry} (hroot : path ≠ Path.root)
    (hfound : v.table.find? path = some e) :
    Sound limits { v with table := v.table.without path } where
  limits_eq := h.limits_eq
  slots_eq := h.slots_eq
  pathLength_eq := h.pathLength_eq
  capacity_eq := h.capacity_eq
  used_le := h.used_le
  distinct := (Table.nodup_cons_without h.distinct hfound).2
  size_le := by
    have hlength := Table.length_without hfound
    have hsize := h.size_le
    unfold Table.size at hsize ⊢
    show (v.table.without path).entries.length ≤ v.table.capacity
    omega
  root := by
    obtain ⟨r, hhead, hr, hdir⟩ := h.root
    exact ⟨r, Table.head?_without hhead (hr ▸ hroot.symm) hfound, hr, hdir⟩
  entries := fun d hd => h.entries d ((Table.mem_without h.distinct hfound).mp hd).1

theorem fits_of_room (h : Sound limits v) {size : Nat} (hroom : size ≤ v.arena.free) :
    v.arena.used + size ≤ v.arena.capacity := by
  have hused := h.used_le
  unfold Arena.free at hroom
  omega

/-- Handing out space for new content leaves the cursor inside the arena. -/
theorem used_le_of_placement (h : Sound limits v) {x place : Extent} {size : Nat} {arena : Arena}
    (hplace : Placement v x size place arena) : arena.used ≤ arena.capacity := by
  cases hplace with
  | keep => exact h.used_le
  | inPlace => exact h.used_le
  | relocate _ _ hroom => exact h.fits_of_room hroom

/-- New content has enough space where it is put. -/
theorem length_of_placement {x place : Extent} {size : Nat} {arena : Arena}
    (hplace : Placement v x size place arena) : size ≤ place.length := by
  cases hplace with
  | keep hfit => exact hfit
  | inPlace => exact Nat.le_refl _
  | relocate => exact Nat.le_refl _

/-- The place of new content is inside the arena as a whole. -/
theorem stop_of_placement (h : Sound limits v) {e : Entry} (he : e.Sound limits) {place : Extent}
    {size : Nat} {arena : Arena} (hplace : Placement v e.extent size place arena)
    (hfit : place.offset + size ≤ v.arena.capacity) :
    place.offset + place.length ≤ limits.arenaCapacity := by
  rw [h.capacity_eq] at hfit
  cases hplace with
  | keep => exact he.inside
  | inPlace => exact hfit
  | relocate => exact hfit

/-- Every change that takes place keeps the volume sound. -/
theorem effect (h : Sound limits v) (he : Effect v c w) : Sound limits w := by
  cases he with
  | made hpath hshort hnew hslot =>
    refine h.insert ?_ hnew hslot v.arena rfl h.used_le _
    exact
      { canonical := Path.canonical_normalize _
        short := h.pathLength_eq ▸ hshort
        size_le_max := Nat.zero_le _
        size_le_length := Nat.le_refl _
        inside := h.capacity_eq ▸ h.used_le
        bare := fun _ => ⟨rfl, rfl⟩ }
  | @filed path bytes hpath hsize hshort hnew hslot hroom =>
    -- The room was asked for before the cursor was moved.
    have hfit := h.fits_of_room hroom
    refine h.insert (e := .filled ..) ?_ hnew hslot
      ((v.arena.advanced bytes.length).written v.arena.used bytes) rfl hfit _
    exact
      { canonical := Path.canonical_normalize _
        short := h.pathLength_eq ▸ hshort
        size_le_max := h.limits_eq ▸ hsize
        size_le_length := Nat.le_refl _
        inside := h.capacity_eq ▸ hfit
        bare := fun hdir => absurd hdir Bool.false_ne_true }
  | @rewritten path bytes e place arena hpath hsize hfound hfile hplace hfit =>
    have he := h.entries e (Table.mem_of_find? hfound)
    have hcursor := h.used_le_of_placement hplace
    refine h.update (Entry.withContent_path bytes.length place (v.tick + 1))
      (Entry.withContent_isDirectory _ _ _) hfound ?_ (arena.written place.offset bytes)
      hplace.capacity_eq hcursor _
    exact
      { canonical := he.canonical
        short := he.short
        size_le_max := h.limits_eq ▸ hsize
        size_le_length := length_of_placement hplace
        inside := h.stop_of_placement he hplace hfit
        bare := fun hdir => absurd (hfile.symm.trans hdir) Bool.false_ne_true }
  | removed hpath hroot hfound hempty => exact h.without hroot hfound
  | @permitted path mode e hpath hfound =>
    have he := h.entries e (Table.mem_of_find? hfound)
    refine h.update (Entry.withMode_path mode (v.tick + 1)) (Entry.withMode_isDirectory _ _) hfound
      ?_ v.arena rfl h.used_le _
    exact
      { canonical := he.canonical
        short := he.short
        size_le_max := he.size_le_max
        size_le_length := he.size_le_length
        inside := he.inside
        bare := he.bare }
  | reset =>
    rw [h.reset_eq]
    exact sound_ofLimits limits

end Sound

end RamShell.Volume
