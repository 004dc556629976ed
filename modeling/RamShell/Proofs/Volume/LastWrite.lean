import RamShell.Proofs.Volume.Extents
/-!
# RamShell.Proofs.Volume.LastWrite

A volume that relocates is a plain map from paths to contents. `Contents` is that map: creating
makes a path hold nothing, writing makes it hold the bytes written, deleting makes it hold nothing
at all, and no other path ever notices. `Volume.contents` reads the map off table and arena.

The two agree after every change (`contents_effect`), because the extents of different files are
apart. The main statement is `readAll_eq_last_written`: after any list of requests a file reads as
the bytes that were last written to it since it was made, and no request about other paths changes
what a path reads.
-/

namespace RamShell.Volume

/-! ### The map -/

/-- What a path holds. -/
inductive Held
  /-- A directory. -/
  | directory
  /-- A file with its content. -/
  | file (bytes : Bytes)
  deriving DecidableEq, Repr

/-- What a path names that holds this, if anything. -/
def Held.kind : Option Held → Kind
  | some .directory => .directory
  | some (.file _) => .file
  | none => .unknown

/-- What reading a path answers that holds this, if anything. -/
def Held.read : Option Held → Except Error Bytes
  | some .directory => .error .isDirectory
  | some (.file bytes) => .ok bytes
  | none => .error .notFound

/-- A plain map from canonical paths to what they hold. -/
abbrev Contents := String → Option Held

namespace Contents

/-- Nothing but the root directory. -/
def fresh : Contents := fun p => if p = Path.root then some .directory else none

/-- The map with another value at one path. -/
def assign (m : Contents) (c : String) (held : Option Held) : Contents :=
  fun p => if p = c then held else m p

/-- The map after a change that took place. -/
def after (m : Contents) : Change → Contents
  | .create path isDirectory =>
    m.assign (Path.normalize path) (some (if isDirectory then .directory else .file []))
  | .write path bytes => m.assign (Path.normalize path) (some (.file bytes))
  | .delete path => m.assign (Path.normalize path) none
  | .setPermissions _ _ => m
  | .reset => fresh

/-- The map after changes that took place one after the other. -/
def afterAll (m : Contents) (cs : List Change) : Contents := cs.foldl after m

end Contents

/-- Whether a change is about a canonical path. -/
def Change.touches (p : String) : Change → Prop
  | .create path _ => Path.normalize path = p
  | .write path _ => Path.normalize path = p
  | .delete path => Path.normalize path = p
  | .setPermissions path _ => Path.normalize path = p
  | .reset => True

theorem Contents.after_of_not_touches (m : Contents) {p : String} {c : Change}
    (h : ¬ c.touches p) : m.after c p = m p := by
  cases c with
  | setPermissions => rfl
  | reset => exact absurd trivial h
  | _ => exact if_neg (Ne.symm h)

theorem Contents.afterAll_of_not_touches (m : Contents) {p : String} {cs : List Change}
    (h : ∀ c ∈ cs, ¬ c.touches p) : m.afterAll cs p = m p := by
  induction cs generalizing m with
  | nil => rfl
  | cons c cs ih =>
    exact (ih (m.after c) fun d hd => h d (List.mem_cons_of_mem _ hd)).trans
      (m.after_of_not_touches (h c (List.mem_cons_self ..)))

/-! ### The map of a volume -/

/-- What an entry holds whose content lies in this arena. -/
def Arena.held (a : Arena) (e : Entry) : Held :=
  if e.isDirectory then .directory else .file (a.span e.extent.offset e.size)

/-- What each canonical path of a volume holds. -/
def contents (v : Volume) : Contents := fun p => (v.table.find? p).map v.arena.held

variable {limits : Limits} {v w : Volume} {c : Change} {path : String}

theorem readAll_eq (hpath : path ≠ "") :
    v.readAll path = Held.read (v.contents (Path.normalize path)) := by
  unfold readAll contents Arena.held
  rw [find?_eq hpath]
  cases v.table.find? (Path.normalize path) with
  | none => rfl
  | some e => cases hdir : e.isDirectory <;> simp [hdir, Held.read]

theorem kindAt_eq (hpath : path ≠ "") :
    v.kindAt path = Held.kind (v.contents (Path.normalize path)) := by
  unfold kindAt contents Arena.held Entry.kind
  rw [find?_eq hpath]
  cases v.table.find? (Path.normalize path) with
  | none => rfl
  | some e => cases hdir : e.isDirectory <;> simp [hdir, Held.kind]

theorem contents_eq_none_iff {p : String} : v.contents p = none ↔ v.table.find? p = none :=
  Option.map_eq_none_iff

theorem contents_ofLimits (limits : Limits) : (ofLimits limits).contents = .fresh := by
  funext p
  rw [contents, find?_ofLimits, Contents.fresh]
  split
  · rfl
  · rfl

/-! ### Writes and the entries around them -/

theorem Arena.span_zero (a : Arena) (offset : Nat) : a.span offset 0 = [] := by
  apply List.eq_nil_of_length_eq_zero
  rw [length_span]
  exact Nat.zero_min _

/-- A write is not seen in an entry whose extent it does not reach. -/
theorem Arena.held_written_of_apart (a : Arena) {e : Entry} {offset : Nat} {bytes : Bytes}
    (hsize : e.size ≤ e.extent.length)
    (h : offset + bytes.length ≤ e.extent.offset ∨ e.extent.stop ≤ offset) :
    (a.written offset bytes).held e = a.held e := by
  unfold held
  rw [span_written_of_apart]
  unfold Extent.stop at h
  omega

/-- Handing out space changes no byte. -/
theorem Placement.held_written {x place : Extent} {size : Nat} {arena : Arena}
    (h : Placement v x size place arena) (offset : Nat) (bytes : Bytes) (e : Entry) :
    (arena.written offset bytes).held e = (v.arena.written offset bytes).held e := by
  cases h <;> rfl

/-- Every change does to the volume what it does to the map. -/
theorem contents_effect (h : Sound limits v) (hl : Laid v) (hpolicy : limits.growth = .relocate)
    (he : Effect v c w) : w.contents = v.contents.after c := by
  have hgrowth : v.limits.growth = .relocate := h.limits_eq ▸ hpolicy
  cases he with
  | @made path isDirectory hpath hshort hnew hslot =>
    funext p
    show ((v.table.insert _).find? p).map v.arena.held = _
    rw [Table.find?_insert hnew]
    by_cases hp : p = Path.normalize path
    · rw [Entry.empty_path, Contents.after, Contents.assign, if_pos hp, if_pos hp]
      cases isDirectory with
      | true => rfl
      | false => simp [Arena.held, Entry.empty, Arena.span_zero]
    · rw [Entry.empty_path, Contents.after, Contents.assign, if_neg hp, if_neg hp]
      rfl
  | @filed path bytes hpath hsize hshort hnew hslot hroom =>
    have hfit : v.arena.used + bytes.length ≤ (v.arena.advanced bytes.length).capacity :=
      h.fits_of_room hroom
    have hfind := Table.find?_insert
      (e := .filled (Path.normalize path) bytes.length v.arena.used (v.tick + 1)) hnew
    funext p
    show ((v.table.insert (.filled ..)).find? p).map _ = _
    rw [hfind, Entry.filled_path, Contents.after, Contents.assign]
    by_cases hp : p = Path.normalize path
    · rw [if_pos hp, if_pos hp, Option.map_some]
      exact congrArg (some ∘ Held.file) (Arena.span_written hfit)
    · rw [if_neg hp, if_neg hp, contents]
      -- The other contents end at or before the cursor, where the new one starts.
      apply Option.map_congr
      intro d hd
      have hmem := Table.mem_of_find? hd
      exact Arena.held_written_of_apart _ (h.entries d hmem).size_le_length
        (Or.inr (hl.below d hmem))
  | @rewritten path bytes e place arena hpath hsize hfound hfile hplace hfit =>
    have hmem := Table.mem_of_find? hfound
    rw [← hplace.capacity_eq] at hfit
    funext p
    show ((v.table.update _ _).find? p).map _ = _
    rw [Table.find?_update (Entry.withContent_path _ _ _), Contents.after, Contents.assign]
    by_cases hp : p = Path.normalize path
    · rw [if_pos hp, if_pos hp, hp, hfound, Option.map_some, Option.map_some]
      show some (Arena.held _ (e.withContent bytes.length place (v.tick + 1))) = _
      rw [Arena.held, Entry.withContent, if_neg (by simp [hfile]), Arena.span_written hfit]
    · rw [if_neg hp, if_neg hp, contents]
      -- The other contents lie in extents of their own, which the new place is apart from.
      apply Option.map_congr
      intro d hd
      have hd' := Table.mem_of_find? hd
      have hne : e.path ≠ d.path := by
        rw [Table.path_of_find? hfound, Table.path_of_find? hd]
        exact Ne.symm hp
      have hlength := Sound.length_of_placement hplace
      rw [hplace.held_written]
      apply Arena.held_written_of_apart _ (h.entries d hd').size_le_length
      have hapart := hl.place_apart hgrowth hmem hd' hne hplace
      unfold Extent.Apart Extent.stop at hapart
      unfold Extent.stop
      omega
  | @removed path e hpath hroot hfound hempty =>
    funext p
    show ((v.table.without _).find? p).map v.arena.held = _
    rw [Table.find?_without h.distinct hfound, Contents.after, Contents.assign]
    split <;> rfl
  | @permitted path mode e hpath hfound =>
    funext p
    show ((v.table.update _ _).find? p).map v.arena.held = v.contents p
    rw [Table.find?_update (Entry.withMode_path _ _), contents]
    split
    · rw [Option.map_map]
      rfl
    · rfl
  | reset =>
    rw [h.reset_eq, contents_ofLimits]
    rfl

/-- What every change does to the map, a run does. -/
theorem contents_run (h : Sound limits v) (hl : Laid v) (hpolicy : limits.growth = .relocate)
    {cs : List Change} (hrun : Run v cs w) : w.contents = v.contents.afterAll cs := by
  induction hrun with
  | done => rfl
  | step hc _ ih =>
    have he := effect_of_ok h.used_le hc
    rw [ih (h.effect he) (hl.effect h hpolicy he), contents_effect h hl hpolicy he]
    rfl

/-! ### Requests about other paths -/

/-- Whether a request is about a canonical path. A directory made with its parents is about all of
them, a seeding about all it may make. -/
def Request.concerns (p : String) : Request → Prop
  | .create path _ => Path.normalize path = p
  | .createDirs path => p ∈ chain (Path.names path)
  | .write path _ => Path.normalize path = p
  | .delete path => Path.normalize path = p
  | .setPermissions path _ => Path.normalize path = p
  | .seed =>
    (∃ path ∈ skeletonDirs, p ∈ chain (Path.names path)) ∨
      ∃ f ∈ fixtures, Path.normalize f.path = p
  | .reset => True
  | _ => False

/-- Whether a request asks for other content of a canonical path, or for none. -/
def Request.replaces (p : String) : Request → Prop
  | .write path _ => Path.normalize path = p
  | .delete path => Path.normalize path = p
  | .reset => True
  | _ => False

theorem mem_chain_of_touches {p : String} (h : c ∈ v.changesOfDirs path) (hc : c.touches p) :
    p ∈ chain (Path.names path) := by
  obtain ⟨dir, hdir, rfl⟩ := mem_changesOfDirs h
  have hcanonical := canonical_of_mem_chain (Path.proper_names path) hdir
  obtain rfl : dir = p := hcanonical.symm.trans hc
  exact hdir

/-- A request makes no change to a path that it is not about. -/
theorem concerns_of_touches {p : String} {r : Request} (h : c ∈ v.changes r) (hc : c.touches p) :
    r.concerns p := by
  cases r with
  | create =>
    obtain rfl := eq_of_mem_attempt h
    exact hc
  | createDirs => exact mem_chain_of_touches h hc
  | write =>
    obtain rfl := eq_of_mem_attempt h
    exact hc
  | delete =>
    obtain rfl := eq_of_mem_attempt h
    exact hc
  | setPermissions =>
    obtain rfl := eq_of_mem_attempt h
    exact hc
  | reset => trivial
  | seed =>
    rcases mem_changesOfSeed h with ⟨path, hpath, dir, hdir, rfl⟩ | ⟨f, hf, rfl | rfl⟩
    · have hcanonical := canonical_of_mem_chain (Path.proper_names path) hdir
      obtain rfl : dir = p := hcanonical.symm.trans hc
      exact Or.inl ⟨path, hpath, hdir⟩
    · exact Or.inr ⟨f, hf, hc⟩
    · exact Or.inr ⟨f, hf, hc⟩
  | _ => exact absurd h List.not_mem_nil

section Kept

variable {p : String} {held : Held} (h : Sound limits v) (hl : Laid v)
  (hpolicy : limits.growth = .relocate)

include h hl hpolicy

/-- A request does not change what other paths hold. -/
theorem contents_of_not_concerns {r : Request} (hr : ¬ r.concerns p) :
    (v.answer r).2.contents p = v.contents p := by
  rw [contents_run h hl hpolicy (h.run_answer r)]
  exact Contents.afterAll_of_not_touches _ fun c hc ht => hr (concerns_of_touches hc ht)

/-- What exists already is not made again. -/
theorem contents_of_creates {cs : List Change} (hrun : Run v cs w)
    (hcs : ∀ c ∈ cs, ∃ path isDirectory, c = .create path isDirectory)
    (hp : v.contents p = some held) : w.contents p = some held := by
  induction hrun with
  | done => exact hp
  | @step v w x c cs hc _ ih =>
    have he := effect_of_ok h.used_le hc
    refine ih (h.effect he) (hl.effect h hpolicy he)
      (fun d hd => hcs d (List.mem_cons_of_mem _ hd)) ?_
    rw [contents_effect h hl hpolicy he]
    obtain ⟨path, isDirectory, rfl⟩ := hcs c (List.mem_cons_self ..)
    cases he with
    | made _ _ hnew =>
      have hne : p ≠ Path.normalize path := by
        rintro rfl
        rw [contents_eq_none_iff.mpr hnew] at hp
        exact absurd hp (by simp)
      exact (if_neg hne).trans hp

theorem contents_addFixtures {fs : List Fixture} (hfs : ∀ f ∈ fs, f.path ≠ "")
    (hp : v.contents p = some held) : (v.addFixtures fs).2.contents p = some held := by
  induction fs generalizing v with
  | nil => exact hp
  | cons f fs ih =>
    have hrest := fun g hg => hfs g (List.mem_cons_of_mem _ hg)
    rw [addFixtures]
    by_cases hthere : v.contains f.path = true
    · rw [if_pos hthere]
      exact ih h hl hrest hp
    rw [if_neg hthere]
    -- A file is only made where there is nothing, so not at `p`.
    have hmissing : v.contents (Path.normalize f.path) = none := by
      rw [contents_eq_none_iff, ← find?_eq (hfs f (List.mem_cons_self ..))]
      simpa [contains] using hthere
    have hne : Path.normalize f.path ≠ p := by
      rintro rfl
      rw [hmissing] at hp
      exact absurd hp (by simp)
    have hone := h.run_addFixture f
    have hkept : (v.addFixture f).2.contents p = some held := by
      rw [contents_run h hl hpolicy hone, Contents.afterAll_of_not_touches _ ?_, hp]
      intro c hc ht
      rcases mem_changesOfFixture hc with rfl | rfl <;> exact hne ht
    have hsound := h.run hone
    have hlaid := hl.run h hpolicy hone
    rcases hadded : v.addFixture f with ⟨(e | ⟨⟨⟩⟩), w⟩
    · rw [hadded] at hkept
      exact hkept
    · rw [hadded] at hkept hsound hlaid
      exact ih hsound hlaid hrest hkept

theorem contents_seed (hp : v.contents p = some held) : v.seed.2.contents p = some held := by
  have hdirs := h.run_addDirs skeletonDirs
  have hkept : (v.addDirs skeletonDirs).2.contents p = some held := by
    refine contents_of_creates h hl hpolicy hdirs (fun c hc => ?_) hp
    obtain ⟨-, -, dir, -, rfl⟩ := mem_changesOfAddDirs hc
    exact ⟨dir, true, rfl⟩
  have hlaid := hl.run h hpolicy hdirs
  rcases seed_cases v with ⟨e, w, hrow, hseed⟩ | ⟨w, hrow, hseed⟩
  · rw [hrow] at hkept
    rwa [hseed]
  · rw [hrow] at hkept hlaid
    rw [hseed]
    exact contents_addFixtures (h.of_addDirs hrow) hlaid hpolicy (by decide) hkept

/-- What exists keeps what it holds until it is written to or deleted, or everything is dropped. -/
theorem contents_of_not_replaces {r : Request} (hr : ¬ r.replaces p)
    (hp : v.contents p = some held) : (v.answer r).2.contents p = some held := by
  have hrun := h.run_answer r
  cases r with
  | create path isDirectory =>
    refine contents_of_creates h hl hpolicy hrun (fun c hc => ?_) hp
    exact ⟨_, _, eq_of_mem_attempt hc⟩
  | createDirs path =>
    refine contents_of_creates h hl hpolicy hrun (fun c hc => ?_) hp
    obtain ⟨dir, -, rfl⟩ := mem_changesOfDirs hc
    exact ⟨dir, true, rfl⟩
  | setPermissions path mode =>
    rw [contents_run h hl hpolicy hrun, ← hp]
    show v.contents.afterAll (v.attempt _) p = _
    unfold attempt
    split <;> rfl
  | seed => exact contents_seed h hl hpolicy hp
  | write path bytes =>
    have hother : ¬ (Request.write path bytes).concerns p := hr
    rw [contents_of_not_concerns h hl hpolicy hother, hp]
  | delete path =>
    have hother : ¬ (Request.delete path).concerns p := hr
    rw [contents_of_not_concerns h hl hpolicy hother, hp]
  | reset => exact absurd trivial hr
  | _ => exact hp

end Kept

/-! ### Every run -/

section Held

variable {held : Option Held}

theorem Held.read_eq_ok_iff {bytes : Bytes} :
    Held.read held = .ok bytes ↔ held = some (.file bytes) := by
  rcases held with - | - | - <;> simp [Held.read]

theorem Held.read_eq_isDirectory_iff :
    Held.read held = .error .isDirectory ↔ Held.kind held = .directory := by
  rcases held with - | - | - <;> simp [Held.read, Held.kind]

theorem Held.read_eq_notFound_iff :
    Held.read held = .error .notFound ↔ Held.kind held = .unknown := by
  rcases held with - | - | - <;> simp [Held.read, Held.kind]

end Held

/-- After any requests to a volume that relocates, a path reads as what was last written to it
since it was made, if it is a file. Requests about other paths do not change what a path reads, and
a file keeps its content until it is written to or deleted, or everything is dropped. -/
theorem readAll_eq_last_written (hpolicy : limits.growth = .relocate) (rs : List Request)
    (hpath : path ≠ "") :
    let v := ((ofLimits limits).serve rs).2
    let held := Contents.fresh.afterAll ((ofLimits limits).history rs) (Path.normalize path)
    v.kindAt path = Held.kind held ∧
      (∀ bytes, v.readAll path = .ok bytes ↔
        v.kindAt path = .file ∧ held = some (.file bytes)) ∧
      (v.readAll path = .error .isDirectory ↔ v.kindAt path = .directory) ∧
      (v.readAll path = .error .notFound ↔ v.kindAt path = .unknown) ∧
      (∀ r, ¬ r.concerns (Path.normalize path) → (v.answer r).2.readAll path = v.readAll path) ∧
      ∀ r bytes, ¬ r.replaces (Path.normalize path) → v.readAll path = .ok bytes →
        (v.answer r).2.readAll path = .ok bytes := by
  intro v held
  have hstart := sound_ofLimits limits
  have hrun := hstart.run_serve rs
  have hs : Sound limits v := hstart.run hrun
  have hl : Laid v := (laid_ofLimits limits).run hstart hpolicy hrun
  have hheld : v.contents (Path.normalize path) = held := by
    rw [contents_run hstart (laid_ofLimits limits) hpolicy hrun, contents_ofLimits]
  refine ⟨?_, ?_, ?_, ?_, ?_, ?_⟩
  · rw [kindAt_eq hpath, hheld]
  · intro bytes
    rw [readAll_eq hpath, kindAt_eq hpath, hheld, Held.read_eq_ok_iff]
    exact ⟨fun h => ⟨h ▸ rfl, h⟩, fun h => h.2⟩
  · rw [readAll_eq hpath, kindAt_eq hpath, Held.read_eq_isDirectory_iff]
  · rw [readAll_eq hpath, kindAt_eq hpath, Held.read_eq_notFound_iff]
  · intro r hr
    rw [readAll_eq hpath, readAll_eq hpath, contents_of_not_concerns hs hl hpolicy hr]
  · intro r bytes hr hread
    rw [readAll_eq hpath, Held.read_eq_ok_iff] at hread ⊢
    exact contents_of_not_replaces hs hl hpolicy hr hread

/-- A file that outgrew its extent reads as what was written last, and a file that was deleted and
made again reads as empty. -/
theorem readAll_after_relocation :
    let v := ((ofLimits ⟨4, 8, 16, 16, .relocate⟩).serve
      [.write "/a" [1, 2], .write "b" [3], .write "/a" [4, 5, 6], .delete "/b",
        .create "//b" false, .write "/c" []]).2
    v.readAll "a/" = .ok [4, 5, 6] ∧ v.readAll "/b" = .ok [] ∧
      (v.answer .seed).2.readAll "/a" = .ok [4, 5, 6] := by
  intro v
  have ha := @readAll_eq_last_written ⟨4, 8, 16, 16, .relocate⟩ "/a" rfl
    [.write "/a" [1, 2], .write "b" [3], .write "/a" [4, 5, 6], .delete "/b",
      .create "//b" false, .write "/c" []] (by decide)
  have hb := @readAll_eq_last_written ⟨4, 8, 16, 16, .relocate⟩ "/b" rfl
    [.write "/a" [1, 2], .write "b" [3], .write "/a" [4, 5, 6], .delete "/b",
      .create "//b" false, .write "/c" []] (by decide)
  refine ⟨by decide, (hb.2.1 []).mpr (by decide), ?_⟩
  exact ha.2.2.2.2.2 .seed [4, 5, 6] id ((ha.2.1 _).mpr (by decide))

end RamShell.Volume
