import RamShell.Proofs.Path.Canonical
import RamShell.Proofs.Volume.Lookup
import RamShell.Proofs.Volume.Span
import RamShell.Volume.Update
/-!
# RamShell.Proofs.Volume.Change

The five elementary changes to a volume and what each of them does. Every other change is made of
these: a directory with its parents is a row of creations, seeding is a row of creations, writes
and changes of mode.

`Effect` lists the six ways in which a change can take place, each with the conditions that were
checked on the way and the volume that it leaves. The main statement is `apply_cases`: as long as
the cursor is inside the arena, a change either is refused and leaves the volume exactly as it
was, or has one of these effects. What holds of a volume after a change is a case analysis on
`Effect`, and nothing after this module opens the operations again.
-/

namespace RamShell.Volume

/-! ### Changes and their effects -/

/-- An elementary change to a volume. -/
inductive Change
  /-- Make an empty file or directory. -/
  | create (path : String) (isDirectory : Bool)
  /-- Replace the content of a file, or make one with content. -/
  | write (path : String) (bytes : Bytes)
  /-- Remove a file or an empty directory. -/
  | delete (path : String)
  /-- Replace permission bits. -/
  | setPermissions (path : String) (mode : UInt16)
  /-- Drop everything. -/
  | reset
  deriving DecidableEq, Repr

/-- Asks a volume for a change. -/
def apply (v : Volume) : Change → Result Unit
  | .create path isDirectory => v.create path isDirectory
  | .write path bytes => v.write path bytes
  | .delete path => v.delete path
  | .setPermissions path mode => v.setPermissions path mode
  | .reset => (.ok (), v.reset)

/-- The record of a file whose content was replaced. -/
def Entry.withContent (size : Nat) (place : Extent) (tick : Nat) (e : Entry) : Entry :=
  { e with size := size, extent := place, modifiedTick := tick }

/-- The record of an entry whose permission bits were replaced. -/
def Entry.withMode (mode : UInt16) (tick : Nat) (e : Entry) : Entry :=
  { e with permissions := .ofMode mode, modifiedTick := tick }

/-- The record of a file that was made with content. -/
def Entry.filled (c : String) (size offset tick : Nat) : Entry :=
  { Entry.empty c false offset tick with size := size, extent := ⟨offset, size⟩ }

@[simp] theorem Entry.withContent_path (size : Nat) (place : Extent) (tick : Nat) (e : Entry) :
    (e.withContent size place tick).path = e.path := rfl

@[simp] theorem Entry.withContent_isDirectory (size : Nat) (place : Extent) (tick : Nat) (e : Entry) :
    (e.withContent size place tick).isDirectory = e.isDirectory := rfl

@[simp] theorem Entry.withMode_path (mode : UInt16) (tick : Nat) (e : Entry) :
    (e.withMode mode tick).path = e.path := rfl

@[simp] theorem Entry.withMode_isDirectory (mode : UInt16) (tick : Nat) (e : Entry) :
    (e.withMode mode tick).isDirectory = e.isDirectory := rfl

@[simp] theorem Entry.filled_path (c : String) (size offset tick : Nat) :
    (filled c size offset tick).path = c := rfl

/-- The extent that content of `size` bytes goes to, for a file that has extent `x`, and the arena
with the space handed out for it. -/
inductive Placement (v : Volume) (x : Extent) (size : Nat) : Extent → Arena → Prop
  /-- The content fits the extent it has. -/
  | keep (hfit : size ≤ x.length) : Placement v x size x v.arena
  /-- The content outgrows its extent and gets a new one. -/
  | relocate (hgrow : x.length < size) (hpolicy : v.limits.growth = .relocate)
      (hroom : size ≤ v.arena.free) :
      Placement v x size ⟨v.arena.used, size⟩ (v.arena.advanced size)
  /-- The content outgrows its extent and runs past its end. -/
  | inPlace (hgrow : x.length < size) (hpolicy : v.limits.growth = .inPlace) :
      Placement v x size ⟨x.offset, size⟩ v.arena

/-- What a change does that takes place. -/
inductive Effect (v : Volume) : Change → Volume → Prop
  /-- An empty entry is added at the end. -/
  | made {path : String} {isDirectory : Bool} (hpath : path ≠ "")
      (hshort : (Path.normalize path).utf8ByteSize ≤ v.table.maxPathLength)
      (hnew : v.table.find? (Path.normalize path) = none) (hslot : v.table.size < v.table.capacity) :
      Effect v (.create path isDirectory)
        { v with
          table := v.table.insert
            (.empty (Path.normalize path) isDirectory v.arena.used (v.tick + 1))
          tick := v.tick + 1 }
  /-- A file is added at the end, and its content lies where the cursor was. -/
  | filed {path : String} {bytes : Bytes} (hpath : path ≠ "")
      (hsize : bytes.length ≤ v.limits.maxFileSize)
      (hshort : (Path.normalize path).utf8ByteSize ≤ v.table.maxPathLength)
      (hnew : v.table.find? (Path.normalize path) = none) (hslot : v.table.size < v.table.capacity)
      (hroom : bytes.length ≤ v.arena.free) :
      Effect v (.write path bytes)
        { v with
          table := v.table.insert
            (.filled (Path.normalize path) bytes.length v.arena.used (v.tick + 1))
          arena := (v.arena.advanced bytes.length).written v.arena.used bytes
          tick := v.tick + 1 }
  /-- The content of a file is replaced. -/
  | rewritten {path : String} {bytes : Bytes} {e : Entry} {place : Extent} {arena : Arena}
      (hpath : path ≠ "") (hsize : bytes.length ≤ v.limits.maxFileSize)
      (hfound : v.table.find? (Path.normalize path) = some e) (hfile : e.isDirectory = false)
      (hplace : Placement v e.extent bytes.length place arena)
      (hfit : place.offset + bytes.length ≤ v.arena.capacity) :
      Effect v (.write path bytes)
        { v with
          table := v.table.update (Path.normalize path)
            (.withContent bytes.length place (v.tick + 1))
          arena := arena.written place.offset bytes
          tick := v.tick + 1 }
  /-- An entry is taken out. -/
  | removed {path : String} {e : Entry} (hpath : path ≠ "")
      (hroot : Path.normalize path ≠ Path.root)
      (hfound : v.table.find? (Path.normalize path) = some e)
      (hempty : e.isDirectory = true →
        v.table.hasBelow (Path.childStem (Path.normalize path)) = false) :
      Effect v (.delete path) { v with table := v.table.without (Path.normalize path) }
  /-- The permission bits of an entry are replaced. -/
  | permitted {path : String} {mode : UInt16} {e : Entry} (hpath : path ≠ "")
      (hfound : v.table.find? (Path.normalize path) = some e) :
      Effect v (.setPermissions path mode)
        { v with
          table := v.table.update (Path.normalize path) (.withMode mode (v.tick + 1))
          tick := v.tick + 1 }
  /-- Everything is dropped. -/
  | reset : Effect v .reset v.reset

/-! ### Which effect a change has -/

variable {v : Volume}

/-- Only the empty path has no canonical form. -/
theorem keyOf_cases (path : String) :
    (path = "" ∧ keyOf path = .error .invalidPath) ∨
      (path ≠ "" ∧ keyOf path = .ok (Path.normalize path)) := by
  unfold keyOf
  by_cases h : path = ""
  · subst h
    exact Or.inl ⟨rfl, rfl⟩
  · exact Or.inr ⟨h, if_neg (by simpa using h)⟩

theorem find?_eq {path : String} (hpath : path ≠ "") :
    v.find? path = v.table.find? (Path.normalize path) := by
  unfold find?
  rcases keyOf_cases path with ⟨h, -⟩ | ⟨-, hkey⟩
  · exact absurd h hpath
  · rw [hkey]

/-- What a path names is the entry under its canonical form, and the empty path names nothing. -/
theorem find?_eq_some_iff {path : String} {e : Entry} :
    v.find? path = some e ↔ path ≠ "" ∧ v.table.find? (Path.normalize path) = some e := by
  by_cases hpath : path = ""
  · subst hpath
    simp
  · rw [find?_eq hpath]
    exact (and_iff_right hpath).symm

/-- An entry is made under a path that is new and short enough, if a slot is free. -/
theorem create_eq_ok {path : String} (hpath : path ≠ "")
    (hshort : (Path.normalize path).utf8ByteSize ≤ v.table.maxPathLength)
    (hnew : v.table.find? (Path.normalize path) = none) (hslot : v.table.size < v.table.capacity)
    (isDirectory : Bool) :
    v.create path isDirectory =
      (.ok (), { v with
        table := v.table.insert
          (.empty (Path.normalize path) isDirectory v.arena.used (v.tick + 1))
        tick := v.tick + 1 }) := by
  have hkey := ((keyOf_cases path).resolve_left fun h => hpath h.1).2
  have hc := Path.normalize_ne_empty path
  simp only [create, hkey, Table.create_eq_insert hc hshort hnew hslot]

theorem create_effect (v : Volume) (path : String) (isDirectory : Bool) :
    (∃ e, v.create path isDirectory = (.error e, v)) ∨
      ∃ w, v.create path isDirectory = (.ok (), w) ∧ Effect v (.create path isDirectory) w := by
  rcases keyOf_cases path with ⟨-, hkey⟩ | ⟨hpath, hkey⟩
  · exact Or.inl ⟨.invalidPath, by rw [create, hkey]⟩
  rcases v.table.create_cases (Path.normalize path) isDirectory v.arena.used (v.tick + 1) with
    ⟨err, hcreate⟩ | ⟨-, hshort, hnew, hslot⟩
  · exact Or.inl ⟨err, by simp only [create, hkey, hcreate]⟩
  · exact Or.inr
      ⟨_, create_eq_ok hpath hshort hnew hslot isDirectory, .made hpath hshort hnew hslot⟩

/-- A place is found without touching the volume, or not at all. Only reserving moves the cursor. -/
theorem placeFor_cases (v : Volume) (x : Extent) (size : Nat) :
    (∃ e, v.placeFor x size = (.error e, v)) ∨
      ∃ place arena, v.placeFor x size = (.ok place, { v with arena := arena }) ∧
        Placement v x size place arena := by
  unfold placeFor
  by_cases hfit : size ≤ x.length
  · exact Or.inr ⟨_, _, if_pos (by simpa using hfit), .keep hfit⟩
  · have hgrow : x.length < size := Nat.lt_of_not_le hfit
    rw [if_neg (by simpa using hfit)]
    cases hpolicy : v.limits.growth with
    | inPlace => exact Or.inr ⟨_, _, rfl, .inPlace hgrow hpolicy⟩
    | relocate =>
      rcases v.arena.reserve_cases size with ⟨err, hreserve⟩ | ⟨hroom, hreserve⟩
      · exact Or.inl ⟨err, by simp only [hreserve]⟩
      · exact Or.inr ⟨_, _, by simp only [hreserve], .relocate hgrow hpolicy hroom⟩

/-- The entry that is looked up is there, so amending it goes through. -/
theorem amend_eq_ok {c : String} {e : Entry} (he : v.table.find? c = some e)
    (record : Nat → Entry → Entry) :
    v.amend c record =
      (.ok (), { v with table := v.table.update c (record (v.tick + 1)), tick := v.tick + 1 }) := by
  unfold amend
  simp only [he]

theorem settle_eq_ok {c : String} {e : Entry} (he : v.table.find? c = some e) {place : Extent}
    {bytes : Bytes} (hfit : place.offset + bytes.length ≤ v.arena.capacity) :
    v.settle c place bytes =
      (.ok (), { v with
        table := v.table.update c (.withContent bytes.length place (v.tick + 1))
        arena := v.arena.written place.offset bytes
        tick := v.tick + 1 }) := by
  unfold settle
  rw [Arena.write_eq_ok hfit]
  exact amend_eq_ok (v := { v with arena := v.arena.written place.offset bytes }) he _

/-- Space just handed out is inside the arena. -/
theorem Placement.capacity_eq {x place : Extent} {size : Nat} {arena : Arena}
    (h : Placement v x size place arena) : arena.capacity = v.arena.capacity := by
  cases h <;> rfl

/-- Once space was handed out for new content, the content fits. -/
theorem Placement.fits_of_advanced {x place : Extent} {size : Nat} {arena : Arena}
    (hused : v.arena.used ≤ v.arena.capacity) (h : Placement v x size place arena) :
    arena = v.arena ∨ place.offset + size ≤ v.arena.capacity := by
  cases h with
  | keep => exact Or.inl rfl
  | inPlace => exact Or.inl rfl
  | relocate _ _ hroom =>
    right
    unfold Arena.free at hroom
    show v.arena.used + size ≤ v.arena.capacity
    omega

theorem overwrite_effect {path : String} {bytes : Bytes} {e : Entry}
    (hused : v.arena.used ≤ v.arena.capacity) (hpath : path ≠ "")
    (hsize : bytes.length ≤ v.limits.maxFileSize)
    (hfound : v.table.find? (Path.normalize path) = some e) (hfile : e.isDirectory = false) :
    (∃ err, v.overwrite (Path.normalize path) e.extent bytes = (.error err, v)) ∨
      ∃ w, v.overwrite (Path.normalize path) e.extent bytes = (.ok (), w) ∧
        Effect v (.write path bytes) w := by
  unfold overwrite
  rcases v.placeFor_cases e.extent bytes.length with ⟨err, hnone⟩ | ⟨place, arena, hsome, hplace⟩
  · exact Or.inl ⟨err, by simp only [hnone]⟩
  simp only [hsome]
  by_cases hfit : place.offset + bytes.length ≤ v.arena.capacity
  · right
    refine ⟨_, settle_eq_ok (v := { v with arena := arena }) hfound ?_,
      .rewritten hpath hsize hfound hfile hplace hfit⟩
    rw [← hplace.capacity_eq] at hfit
    exact hfit
  · -- Past the end of the arena only content that stays or grows in its old place can run.
    have harena : arena = v.arena := (hplace.fits_of_advanced hused).resolve_right hfit
    subst harena
    refine Or.inl ⟨.outOfSpace, ?_⟩
    unfold settle
    rw [Arena.write_eq_error (Nat.lt_of_not_le hfit)]

/-- With room for the content, nothing is left that could fail once the entry is made. -/
theorem fill_eq_ok {c : String} {bytes : Bytes} (hused : v.arena.used ≤ v.arena.capacity)
    (hroom : bytes.length ≤ v.arena.free) :
    v.fill c bytes =
      (.ok (), { v with
        table := v.table.update c fun e =>
          { e with size := bytes.length, extent := ⟨v.arena.used, bytes.length⟩ }
        arena := (v.arena.advanced bytes.length).written v.arena.used bytes }) := by
  have hfit : v.arena.used + bytes.length ≤ (v.arena.advanced bytes.length).capacity := by
    unfold Arena.free at hroom
    rw [Arena.advanced_capacity]
    omega
  unfold fill
  rw [Arena.reserve_eq_ok hroom]
  simp only [Arena.write_eq_ok hfit]

/-- Filling the entry just made is making it with content. -/
theorem fill_insert {c : String} {bytes : Bytes} {tick : Nat}
    (hused : v.arena.used ≤ v.arena.capacity) (hroom : bytes.length ≤ v.arena.free)
    (hnew : v.table.find? c = none) :
    fill { v with table := v.table.insert (.empty c false v.arena.used tick), tick := tick } c
        bytes =
      (.ok (), { v with
        table := v.table.insert (.filled c bytes.length v.arena.used tick)
        arena := (v.arena.advanced bytes.length).written v.arena.used bytes
        tick := tick }) := by
  let made : Volume :=
    { v with table := v.table.insert (.empty c false v.arena.used tick), tick := tick }
  have hfill : made.fill c bytes = _ := fill_eq_ok (v := made) hused hroom
  have hentry := Table.update_insert (e := .empty c false v.arena.used tick) hnew fun e =>
    { e with size := bytes.length, extent := ⟨v.arena.used, bytes.length⟩ }
  rw [Entry.empty_path] at hentry
  rw [hfill, hentry]
  rfl

theorem writeFresh_effect {path : String} {bytes : Bytes}
    (hused : v.arena.used ≤ v.arena.capacity) (hpath : path ≠ "")
    (hsize : bytes.length ≤ v.limits.maxFileSize) :
    (∃ err, v.writeFresh (Path.normalize path) bytes = (.error err, v)) ∨
      ∃ w, v.writeFresh (Path.normalize path) bytes = (.ok (), w) ∧
        Effect v (.write path bytes) w := by
  unfold writeFresh
  by_cases hroom : bytes.length ≤ v.arena.free
  · rw [if_pos (by simpa [Arena.hasRoom] using hroom)]
    rcases v.table.create_cases (Path.normalize path) false v.arena.used (v.tick + 1) with
      ⟨err, hcreate⟩ | ⟨hc, hshort, hnew, hslot⟩
    · exact Or.inl ⟨err, by simp only [hcreate]⟩
    · refine Or.inr ⟨_, ?_, .filed hpath hsize hshort hnew hslot hroom⟩
      simp only [Table.create_eq_insert hc hshort hnew hslot]
      exact fill_insert hused hroom hnew
  · exact Or.inl ⟨.outOfSpace, if_neg (by simpa [Arena.hasRoom] using hroom)⟩

theorem write_effect (hused : v.arena.used ≤ v.arena.capacity) (path : String) (bytes : Bytes) :
    (∃ e, v.write path bytes = (.error e, v)) ∨
      ∃ w, v.write path bytes = (.ok (), w) ∧ Effect v (.write path bytes) w := by
  unfold write
  rcases keyOf_cases path with ⟨-, hkey⟩ | ⟨hpath, hkey⟩
  · exact Or.inl ⟨_, by rw [hkey]⟩
  rw [hkey]
  by_cases hlarge : v.limits.maxFileSize < bytes.length
  · exact Or.inl ⟨.tooLarge, if_pos hlarge⟩
  have hsize := Nat.le_of_not_lt hlarge
  simp only [if_neg hlarge]
  cases hfound : v.table.find? (Path.normalize path) with
  | none => exact writeFresh_effect hused hpath hsize
  | some e =>
    cases hdir : e.isDirectory with
    | true => exact Or.inl ⟨.cannotWriteDirectory, by simp [hdir]⟩
    | false =>
      simp only [hdir, Bool.false_eq_true, if_false]
      exact overwrite_effect hused hpath hsize hfound hdir

theorem delete_effect (v : Volume) (path : String) :
    (∃ e, v.delete path = (.error e, v)) ∨
      ∃ w, v.delete path = (.ok (), w) ∧ Effect v (.delete path) w := by
  unfold delete
  rcases keyOf_cases path with ⟨-, hkey⟩ | ⟨hpath, hkey⟩
  · exact Or.inl ⟨_, by rw [hkey]⟩
  rw [hkey]
  by_cases hroot : Path.normalize path = Path.root
  · exact Or.inl ⟨.cannotDeleteRoot, if_pos hroot⟩
  simp only [if_neg hroot]
  cases hfound : v.table.find? (Path.normalize path) with
  | none => exact Or.inl ⟨.notFound, rfl⟩
  | some e =>
    by_cases hfull : (e.isDirectory && v.table.hasBelow (Path.childStem (Path.normalize path))) = true
    · exact Or.inl ⟨.directoryNotEmpty, if_pos hfull⟩
    · have hempty : e.isDirectory = true →
          v.table.hasBelow (Path.childStem (Path.normalize path)) = false := by
        intro hdir
        simpa [hdir] using hfull
      refine Or.inr ⟨_, ?_, .removed hpath hroot hfound hempty⟩
      simp only [if_neg hfull, Table.delete_eq_ok hroot hfound]

/-- The permission bits of an entry can always be replaced. -/
theorem setPermissions_eq_ok {path : String} {e : Entry} (hpath : path ≠ "")
    (hfound : v.table.find? (Path.normalize path) = some e) (mode : UInt16) :
    v.setPermissions path mode =
      (.ok (), { v with
        table := v.table.update (Path.normalize path) (.withMode mode (v.tick + 1))
        tick := v.tick + 1 }) := by
  have hkey := ((keyOf_cases path).resolve_left fun h => hpath h.1).2
  have hthere : v.table.contains (Path.normalize path) = true := Table.contains_iff.mpr ⟨e, hfound⟩
  simp only [setPermissions, hkey, if_pos hthere]
  exact amend_eq_ok hfound _

theorem setPermissions_effect (v : Volume) (path : String) (mode : UInt16) :
    (∃ e, v.setPermissions path mode = (.error e, v)) ∨
      ∃ w, v.setPermissions path mode = (.ok (), w) ∧ Effect v (.setPermissions path mode) w := by
  rcases keyOf_cases path with ⟨-, hkey⟩ | ⟨hpath, hkey⟩
  · exact Or.inl ⟨.invalidPath, by rw [setPermissions, hkey]⟩
  by_cases hthere : v.table.contains (Path.normalize path) = true
  · obtain ⟨e, hfound⟩ := Table.contains_iff.mp hthere
    exact Or.inr ⟨_, setPermissions_eq_ok hpath hfound mode, .permitted hpath hfound⟩
  · exact Or.inl ⟨.notFound, by simp only [setPermissions, hkey, if_neg hthere]⟩

/-- A change is refused and leaves the volume as it was, or it takes place. -/
theorem apply_cases (hused : v.arena.used ≤ v.arena.capacity) (c : Change) :
    (∃ e, v.apply c = (.error e, v)) ∨ ∃ w, v.apply c = (.ok (), w) ∧ Effect v c w := by
  cases c with
  | create path isDirectory => exact create_effect v path isDirectory
  | write path bytes => exact write_effect hused path bytes
  | delete path => exact delete_effect v path
  | setPermissions path mode => exact setPermissions_effect v path mode
  | reset => exact Or.inr ⟨_, rfl, .reset⟩

/-- What a change does that answers that it took place. -/
theorem effect_of_ok (hused : v.arena.used ≤ v.arena.capacity) {c : Change} {w : Volume}
    (h : v.apply c = (.ok (), w)) : Effect v c w := by
  rcases apply_cases hused c with ⟨e, he⟩ | ⟨w', hw, heffect⟩
  · rw [he] at h
    exact absurd (congrArg Prod.fst h) (by simp)
  · rw [hw] at h
    obtain rfl : w' = w := congrArg Prod.snd h
    exact heffect

end RamShell.Volume
