import RamShell.Proofs.Volume.Run
/-!
# RamShell.Proofs.Volume.Clock

The clock of a volume counts its changes, and the ticks that the entries carry are readings of it.
`Timed` says that every reading was taken once: an entry was changed no earlier than it was made,
no reading lies ahead of the clock, and no two entries share one.

Making an entry asks the table first and takes its tick then, changing one takes the tick first.
To the invariant both are the same step: the clock goes on by one, and a single record carries the
new reading (`Timed.put`). A change that is refused takes no tick, and a row of changes that stops
half way has taken those of the entries that it made (`Grown`). The main statement is
`clock_counts_changes`.
-/

namespace RamShell.Volume

variable {limits : Limits} {v w x : Volume} {c : Change} {path : String}

/-! ### The readings that entries carry -/

/-- The ticks at which an entry was made and last changed. -/
def Entry.ticks (e : Entry) : List Nat := [e.createdTick, e.modifiedTick]

/-- Every entry carries readings of its own. -/
structure Timed (v : Volume) : Prop where
  /-- An entry is made before it is changed, and neither before the clock starts nor ahead of it. -/
  ordered : ∀ e ∈ v.table.entries,
    1 ≤ e.createdTick ∧ e.createdTick ≤ e.modifiedTick ∧ e.modifiedTick ≤ v.tick
  /-- No two entries carry the same tick. -/
  unshared : ∀ d ∈ v.table.entries, ∀ e ∈ v.table.entries, d.path ≠ e.path →
    d.ticks.Disjoint e.ticks

theorem timed_ofLimits (limits : Limits) : Timed (ofLimits limits) := by
  rw [ofLimits_eq]
  constructor
  · intro e he
    rw [List.mem_singleton.mp he]
    exact ⟨Nat.le_refl 1, Nat.le_refl 1, Nat.le_refl 1⟩
  · intro d hd e he hne
    rw [List.mem_singleton.mp hd, List.mem_singleton.mp he] at hne
    exact absurd rfl hne

namespace Timed

theorem le_tick (h : Timed v) {e : Entry} (he : e ∈ v.table.entries) {t : Nat} (ht : t ∈ e.ticks) :
    t ≤ v.tick := by
  have hordered := h.ordered e he
  simp only [Entry.ticks, List.mem_cons, List.not_mem_nil, or_false] at ht
  omega

/-- Fewer entries at the same time. -/
theorem subset (h : Timed v) (hentries : w.table.entries ⊆ v.table.entries)
    (htick : w.tick = v.tick) : Timed w where
  ordered := fun e he => htick ▸ h.ordered e (hentries he)
  unshared := fun d hd e he => h.unshared d (hentries hd) e (hentries he)

/-- The clock goes on by one, and one record carries the new reading. This is a new entry, which
was made just now, or stands for the entry that had its path, which was made earlier. -/
theorem put (h : Timed v) {e : Entry} (htick : w.tick = v.tick + 1)
    (hchanged : e.modifiedTick = v.tick + 1)
    (hmade : e.createdTick = v.tick + 1 ∨
      ∃ old ∈ v.table.entries, old.path = e.path ∧ old.createdTick = e.createdTick)
    (hentries : ∀ d ∈ w.table.entries, d = e ∨ (d ∈ v.table.entries ∧ d.path ≠ e.path)) :
    Timed w := by
  -- A tick of the record is new, or it was one of the entry whose place the record takes.
  have hticks : ∀ t ∈ e.ticks, t = v.tick + 1 ∨
      ∃ old ∈ v.table.entries, old.path = e.path ∧ t ∈ old.ticks := by
    intro t ht
    simp only [Entry.ticks, List.mem_cons, List.not_mem_nil, or_false] at ht
    rcases ht with rfl | rfl
    · rcases hmade with hnew | ⟨old, hold, hpath, hcreated⟩
      · exact Or.inl hnew
      · exact Or.inr ⟨old, hold, hpath, hcreated ▸ List.mem_cons_self ..⟩
    · exact Or.inl hchanged
  have hdisjoint : ∀ d ∈ v.table.entries, d.path ≠ e.path → d.ticks.Disjoint e.ticks := by
    intro d hd hne t htd hte
    rcases hticks t hte with rfl | ⟨old, hold, hpath, htold⟩
    · have hpast := h.le_tick hd htd
      omega
    · exact h.unshared d hd old hold (hpath ▸ hne) htd htold
  constructor
  · intro d hd
    rw [htick]
    rcases hentries d hd with rfl | ⟨hd, -⟩
    · rcases hmade with hnew | ⟨old, hold, -, hcreated⟩
      · omega
      · have hordered := h.ordered old hold
        omega
    · have hordered := h.ordered d hd
      omega
  · intro a ha b hb hne
    rcases hentries a ha with rfl | ⟨ha, hae⟩ <;> rcases hentries b hb with rfl | ⟨hb, hbe⟩
    · exact absurd rfl hne
    · exact fun t hta htb => hdisjoint b hb hbe htb hta
    · exact hdisjoint a ha hae
    · exact h.unshared a ha b hb hne

/-- An entry made just now under a new path. -/
theorem insert (h : Timed v) {e : Entry} (hnew : v.table.find? e.path = none)
    (hentries : w.table = v.table.insert e) (htick : w.tick = v.tick + 1)
    (hmade : e.createdTick = v.tick + 1) (hchanged : e.modifiedTick = v.tick + 1) : Timed w := by
  refine h.put htick hchanged (Or.inl hmade) ?_
  intro d hd
  rw [hentries] at hd
  rcases Table.mem_insert.mp hd with hd | rfl
  · exact Or.inr ⟨hd, Table.find?_eq_none_iff.mp hnew d hd⟩
  · exact Or.inl rfl

/-- An entry changed just now. -/
theorem update (h : Timed v) (hs : Sound limits v) {p : String} {e : Entry} {f : Entry → Entry}
    (hpath : ∀ e, (f e).path = e.path) (hfound : v.table.find? p = some e)
    (hentries : w.table = v.table.update p f) (htick : w.tick = v.tick + 1)
    (hkept : (f e).createdTick = e.createdTick) (hchanged : (f e).modifiedTick = v.tick + 1) :
    Timed w := by
  have hold : ∃ old ∈ v.table.entries, old.path = (f e).path ∧
      old.createdTick = (f e).createdTick :=
    ⟨e, Table.mem_of_find? hfound, (hpath e).symm, hkept.symm⟩
  refine h.put htick hchanged (Or.inr hold) ?_
  intro d hd
  rw [hentries, Table.mem_update hs.distinct hpath hfound] at hd
  rw [hpath, Table.path_of_find? hfound]
  exact hd

/-- Every change that takes place leaves every entry with readings of its own. -/
theorem effect (h : Timed v) (hs : Sound limits v) (he : Effect v c w) : Timed w := by
  cases he with
  | made _ _ hnew => exact h.insert hnew rfl rfl rfl rfl
  | filed _ _ _ hnew => exact h.insert hnew rfl rfl rfl rfl
  | rewritten _ _ hfound =>
    exact h.update hs (Entry.withContent_path _ _ _) hfound rfl rfl rfl rfl
  | removed _ _ hfound =>
    exact h.subset (fun d hd => ((Table.mem_without hs.distinct hfound).mp hd).1) rfl
  | permitted _ hfound => exact h.update hs (Entry.withMode_path _ _) hfound rfl rfl rfl rfl
  | reset =>
    rw [hs.reset_eq]
    exact timed_ofLimits limits

theorem run (h : Timed v) (hs : Sound limits v) {cs : List Change} (hrun : Run v cs w) :
    Timed w := by
  induction hrun with
  | done => exact h
  | step hc _ ih =>
    have he := effect_of_ok hs.used_le hc
    exact ih (h.effect hs he) (hs.effect he)

/-- As the entries stand in the table, each shares no tick with those after it. -/
theorem pairwise (h : Timed v) (hd : v.table.Distinct) :
    v.table.entries.Pairwise fun d e => d.ticks.Disjoint e.ticks := by
  have hpaths : v.table.entries.Pairwise fun d e => d.path ≠ e.path := List.pairwise_map.mp hd
  exact hpaths.imp_of_mem fun hd he hne => h.unshared _ hd _ he hne

end Timed

theorem timed_of_reachable (h : Reachable limits v) : Timed v := by
  obtain ⟨cs, hrun⟩ := exists_run_of_reachable h
  exact (timed_ofLimits limits).run (sound_of_reachable .start) hrun

/-! ### The ticks that a change takes -/

/-- The ticks that a change of one entry takes, by its answer: one if it took place, and none if it
was refused. -/
def ticksFor : Except Error Unit → Nat
  | .ok () => 1
  | .error _ => 0

/-- Whether a change puts a record into the table. -/
def Change.puts : Change → Bool
  | .create .. | .write .. | .setPermissions .. => true
  | .delete _ | .reset => false

/-- A change that puts a record into the table takes one tick for it. -/
theorem Effect.tick_eq (he : Effect v c w) (hc : c.puts = true) : w.tick = v.tick + 1 := by
  cases he with
  | removed => exact absurd hc Bool.false_ne_true
  | reset => exact absurd hc Bool.false_ne_true
  | _ => rfl

theorem Sound.tick_apply (h : Sound limits v) (hc : c.puts = true) :
    (v.apply c).2.tick = v.tick + ticksFor (v.apply c).1 := by
  rcases apply_cases h.used_le c with ⟨e, hfailed⟩ | ⟨w, hdone, heffect⟩
  · rw [hfailed]
    rfl
  · rw [hdone]
    exact heffect.tick_eq hc

/-- Deleting takes no tick, whether an entry is taken out or not. -/
theorem tick_delete (v : Volume) (path : String) : (v.delete path).2.tick = v.tick := by
  rcases delete_effect v path with ⟨e, hfailed⟩ | ⟨w, hdone, heffect⟩
  · rw [hfailed]
  · rw [hdone]
    cases heffect with
    | removed => rfl

/-- A change to an entry that exists leaves it with the tick at which it was made, and with the
latest tick in the table as the one at which it was changed. -/
structure Restamped (e : Entry) (path : String) (w : Volume) (e' : Entry) : Prop where
  /-- The entry is found where it was. -/
  found : w.find? path = some e'
  /-- It keeps the tick at which it was made. -/
  created : e'.createdTick = e.createdTick
  /-- It was changed now. -/
  modified : e'.modifiedTick = w.tick
  /-- No entry carries a later tick. -/
  latest : ∀ d ∈ w.table.entries, ∀ t ∈ d.ticks, t ≤ e'.modifiedTick

theorem Timed.restamped (h : Timed w) {e : Entry} {f : Entry → Entry}
    (hf : ∀ e, (f e).path = e.path) (hfound : v.find? path = some e)
    (htable : w.table = v.table.update (Path.normalize path) f)
    (hcreated : (f e).createdTick = e.createdTick) (hmodified : (f e).modifiedTick = w.tick) :
    Restamped e path w (f e) := by
  obtain ⟨hpath, hrecord⟩ := find?_eq_some_iff.mp hfound
  refine ⟨?_, hcreated, hmodified, ?_⟩
  · rw [find?_eq hpath, htable, Table.find?_update hf, if_pos rfl, hrecord]
    rfl
  · intro d hd t ht
    rw [hmodified]
    exact h.le_tick hd ht

/-- Replacing content and replacing permission bits both restamp the entry. -/
theorem Effect.restamped (he : Effect v c w) (h : Timed w) {e : Entry}
    (hfound : v.find? path = some e)
    (hc : (∃ bytes, c = .write path bytes) ∨ ∃ mode, c = .setPermissions path mode) :
    ∃ e', Restamped e path w e' := by
  rcases hc with ⟨bytes, rfl⟩ | ⟨mode, rfl⟩
  · cases he with
    | filed hpath _ _ hnew =>
      rw [find?_eq hpath, hnew] at hfound
      exact absurd hfound (by simp)
    | @rewritten _ _ _ place =>
      have hpath := Entry.withContent_path bytes.length place (v.tick + 1)
      exact ⟨_, h.restamped hpath hfound rfl rfl rfl⟩
  · cases he with
    | permitted =>
      have hpath := Entry.withMode_path mode (v.tick + 1)
      exact ⟨_, h.restamped hpath hfound rfl rfl rfl⟩

/-! ### The ticks that a row of changes takes -/

/-- The ticks that it takes to make some entries: one for each, and one more for each file, which is
written and then given its mode. -/
def ticksToMake (made : List Entry) : Nat := made.length + made.countP fun e => !e.isDirectory

/-- More entries at the end, and the clock on by the ticks that it took to make them. -/
structure Grown (v : Volume) (made : List Entry) (w : Volume) : Prop where
  /-- The entries are the old ones and then those that were made. -/
  entries : w.table.entries = v.table.entries ++ made
  /-- No other ticks were taken. -/
  tick : w.tick = v.tick + ticksToMake made

namespace Grown

variable {made more : List Entry}

theorem refl (v : Volume) : Grown v [] v := ⟨(List.append_nil _).symm, rfl⟩

theorem of_insert {e : Entry} (htable : w.table = v.table.insert e)
    (htick : w.tick = v.tick + ticksToMake [e]) : Grown v [e] w :=
  ⟨congrArg Table.entries htable, htick⟩

theorem trans (h : Grown v made w) (h' : Grown w more x) : Grown v (made ++ more) x where
  entries := by rw [h'.entries, h.entries, List.append_assoc]
  tick := by
    rw [h'.tick, h.tick, ticksToMake, ticksToMake, ticksToMake, List.length_append,
      List.countP_append]
    omega

end Grown

theorem ticksToMake_of_dirs {made : List Entry} (h : ∀ e ∈ made, e.isDirectory = true) :
    ticksToMake made = made.length := by
  have hfiles : made.countP (fun e => !e.isDirectory) = 0 :=
    List.countP_eq_zero.mpr fun e he => by simp [h e he]
  rw [ticksToMake, hfiles, Nat.add_zero]

/-- A row of directories takes one tick for each. -/
theorem Sound.grown_of_dirs (h : Sound limits v) {cs : List Change} (hrun : Run v cs w)
    (hcs : ∀ c ∈ cs, ∃ dir, c = .create dir true) :
    ∃ made, Grown v made w ∧ ∀ e ∈ made, e.isDirectory = true := by
  induction hrun with
  | done v => exact ⟨[], .refl v, fun _ he => absurd he List.not_mem_nil⟩
  | @step v w x c cs hc _ ih =>
    have heffect := effect_of_ok h.used_le hc
    obtain ⟨made, hgrown, hdirs⟩ :=
      ih (h.effect heffect) fun d hd => hcs d (List.mem_cons_of_mem _ hd)
    obtain ⟨dir, rfl⟩ := hcs c (List.mem_cons_self ..)
    cases heffect with
    | made =>
      refine ⟨_, (Grown.of_insert rfl rfl).trans hgrown, ?_⟩
      intro e he
      rcases List.mem_cons.mp he with rfl | he
      · rfl
      · exact hdirs e he

/-- A directory made with its parents takes one tick for each directory that is really added, also
if one of them cannot be made. -/
theorem Sound.grown_createDirs (h : Sound limits v) (path : String) :
    ∃ made, Grown v made (v.createDirs path).2 ∧ ∀ e ∈ made, e.isDirectory = true := by
  refine h.grown_of_dirs (h.run_createDirs path) ?_
  intro c hc
  obtain ⟨dir, -, rfl⟩ := mem_changesOfDirs hc
  exact ⟨dir, rfl⟩

/-- A file that did not exist takes a tick for its content and one for its mode. -/
theorem Sound.grown_addFixture (h : Sound limits v) {f : Fixture} (hnew : v.find? f.path = none) :
    ∃ made, Grown v made (v.addFixture f).2 := by
  rcases h.addFixture_cases hnew with ⟨e, hfailed⟩ | ⟨hdone, -⟩
  · rw [hfailed]
    exact ⟨[], .refl v⟩
  · rw [hdone]
    exact ⟨_, .of_insert rfl rfl⟩

theorem Sound.grown_addFixtures (h : Sound limits v) (fs : List Fixture) :
    ∃ made, Grown v made (v.addFixtures fs).2 := by
  induction fs generalizing v with
  | nil => exact ⟨[], .refl v⟩
  | cons f fs ih =>
    rw [addFixtures]
    by_cases hthere : v.contains f.path = true
    · rw [if_pos hthere]
      exact ih h
    rw [if_neg hthere]
    have hsound := h.run (h.run_addFixture f)
    obtain ⟨made, hone⟩ := h.grown_addFixture (f := f) (by simpa [contains] using hthere)
    rcases hadded : v.addFixture f with ⟨(e | ⟨⟨⟩⟩), w⟩
    · rw [hadded] at hone
      exact ⟨made, hone⟩
    · rw [hadded] at hone hsound
      obtain ⟨more, hrest⟩ := ih hsound
      exact ⟨_, hone.trans hrest⟩

/-- Seeding takes the ticks of what it really makes, also if it stops half way. -/
theorem Sound.grown_seed (h : Sound limits v) : ∃ made, Grown v made v.seed.2 := by
  obtain ⟨made, hgrown, -⟩ := h.grown_of_dirs (h.run_addDirs skeletonDirs) fun c hc => by
    obtain ⟨-, -, dir, -, rfl⟩ := mem_changesOfAddDirs hc
    exact ⟨dir, rfl⟩
  rcases seed_cases v with ⟨e, w, hrow, hseed⟩ | ⟨w, hrow, hseed⟩
  · rw [hrow] at hgrown
    rw [hseed]
    exact ⟨made, hgrown⟩
  · rw [hrow] at hgrown
    rw [hseed]
    obtain ⟨more, hrest⟩ := (h.of_addDirs hrow).grown_addFixtures fixtures
    exact ⟨_, hgrown.trans hrest⟩

/-! ### Every reachable volume -/

/-- A request that fails takes no tick, unless it is one that makes many entries. -/
theorem Sound.tick_of_failed (h : Sound limits v) {r : Request} {e : Error}
    (hdirs : ∀ path, r ≠ .createDirs path) (hseed : r ≠ .seed)
    (hfailed : (v.answer r).1 = .failed e) : (v.answer r).2.tick = v.tick := by
  have hchange : ∀ c, (Reply.ofResult (v.apply c)).1 = .failed e →
      (Reply.ofResult (v.apply c)).2.tick = v.tick := by
    intro c hc
    rcases apply_cases h.used_le c with ⟨err, hrefused⟩ | ⟨w, hdone, -⟩
    · rw [hrefused]
      rfl
    · rw [hdone] at hc
      exact Reply.noConfusion hc
  cases r with
  | create path isDirectory => exact hchange (.create path isDirectory) hfailed
  | write path bytes => exact hchange (.write path bytes) hfailed
  | delete path => exact hchange (.delete path) hfailed
  | setPermissions path mode => exact hchange (.setPermissions path mode) hfailed
  | createDirs path => exact absurd rfl (hdirs path)
  | seed => exact absurd rfl hseed
  | reset => exact Reply.noConfusion hfailed
  | _ => rfl

/-- In every reachable volume no entry was changed before it was made, no tick lies ahead of the
clock, and no tick is that of two entries. Making an entry, writing and replacing permissions take
one tick if they succeed and none if they fail, and deleting takes none. A directory made with its
parents takes one for each directory that is added, and a seeding takes those of what it makes,
whether they fail or not; no other request that fails takes any. Content or permissions of an entry
that are replaced leave it with the tick at which it was made and with the latest one of all. -/
theorem clock_counts_changes (h : Reachable limits v) :
    (∀ e ∈ v.table.entries,
      1 ≤ e.createdTick ∧ e.createdTick ≤ e.modifiedTick ∧ e.modifiedTick ≤ v.tick) ∧
    v.table.entries.Pairwise (fun d e => d.ticks.Disjoint e.ticks) ∧
    (∀ path isDirectory,
      (v.create path isDirectory).2.tick = v.tick + ticksFor (v.create path isDirectory).1) ∧
    (∀ path bytes, (v.write path bytes).2.tick = v.tick + ticksFor (v.write path bytes).1) ∧
    (∀ path mode,
      (v.setPermissions path mode).2.tick = v.tick + ticksFor (v.setPermissions path mode).1) ∧
    (∀ path, (v.delete path).2.tick = v.tick) ∧
    (∀ path, ∃ made, (v.createDirs path).2.table.entries = v.table.entries ++ made ∧
      (∀ e ∈ made, e.isDirectory = true) ∧
      (v.createDirs path).2.tick = v.tick + made.length) ∧
    (∃ made, v.seed.2.table.entries = v.table.entries ++ made ∧
      v.seed.2.tick = v.tick + ticksToMake made) ∧
    v.reset.tick = 1 ∧
    (∀ r e, (∀ path, r ≠ .createDirs path) → r ≠ .seed → (v.answer r).1 = .failed e →
      (v.answer r).2.tick = v.tick) ∧
    ∀ path e, v.find? path = some e →
      (∀ bytes w, v.write path bytes = (.ok (), w) → ∃ e', Restamped e path w e') ∧
      ∀ mode w, v.setPermissions path mode = (.ok (), w) → ∃ e', Restamped e path w e' := by
  have hs := sound_of_reachable h
  have ht := timed_of_reachable h
  refine ⟨ht.ordered, ht.pairwise hs.distinct, ?_, ?_, ?_, tick_delete v, ?_, ?_, ?_, ?_, ?_⟩
  · exact fun path isDirectory => hs.tick_apply (c := .create path isDirectory) rfl
  · exact fun path bytes => hs.tick_apply (c := .write path bytes) rfl
  · exact fun path mode => hs.tick_apply (c := .setPermissions path mode) rfl
  · intro path
    obtain ⟨made, hgrown, hdirs⟩ := hs.grown_createDirs path
    exact ⟨made, hgrown.entries, hdirs, ticksToMake_of_dirs hdirs ▸ hgrown.tick⟩
  · obtain ⟨made, hgrown⟩ := hs.grown_seed
    exact ⟨made, hgrown.entries, hgrown.tick⟩
  · rw [hs.reset_eq, ofLimits_eq]
  · exact fun r e hdirs hseed hfailed => hs.tick_of_failed hdirs hseed hfailed
  · intro path e hfound
    refine ⟨fun bytes w hok => ?_, fun mode w hok => ?_⟩
    · have heffect := effect_of_ok (c := .write path bytes) hs.used_le hok
      exact heffect.restamped (ht.effect hs heffect) hfound (Or.inl ⟨bytes, rfl⟩)
    · have heffect := effect_of_ok (c := .setPermissions path mode) hs.used_le hok
      exact heffect.restamped (ht.effect hs heffect) hfound (Or.inr ⟨mode, rfl⟩)

/-- A refused creation and a deletion take no ticks. Where only one of two missing directories finds
a slot, the clock goes on by one. -/
theorem clock_in_small_volume :
    let v := ((ofLimits ⟨4, 8, 16, 16, .relocate⟩).serve
      [.createDirs "/a/b", .write "/f" [1], .create "a" true, .setPermissions "/a" 0o700,
        .write "f/" [2, 3], .delete "/a/b"]).2
    let w := (v.write "/f" []).2
    v.table.entries.map (fun e => (e.path, e.ticks)) =
        [("/", [1, 1]), ("/a", [2, 5]), ("/f", [4, 6])] ∧
      v.tick = 6 ∧
      v.table.entries.Pairwise (fun d e => d.ticks.Disjoint e.ticks) ∧
      (v.createDirs "/a/c/d").1 = .error .tableFull ∧
      (∃ made, (v.createDirs "/a/c/d").2.table.entries = v.table.entries ++ made ∧
        (v.createDirs "/a/c/d").2.tick = v.tick + made.length ∧ made.length = 1) ∧
      v.write "/f" [] = (.ok (), w) ∧
      ∃ e', w.find? "/f" = some e' ∧ e'.createdTick = 4 ∧ e'.modifiedTick = 7 := by
  intro v w
  have hv : Reachable ⟨4, 8, 16, 16, .relocate⟩ v := Reachable.serve .start _
  obtain ⟨-, hpairs, -, -, -, -, hdirs, -, -, -, hstamp⟩ := clock_counts_changes hv
  obtain ⟨made, hentries, -, htick⟩ := hdirs "/a/c/d"
  have hone : made.length = 1 := by
    have hlater : (v.createDirs "/a/c/d").2.tick = v.tick + 1 := by decide
    omega
  have hfound : v.find? "/f" = some (.withContent 2 ⟨1, 2⟩ 6 (.filled "/f" 1 0 4)) := by decide
  have hwrite : v.write "/f" [] = (.ok (), w) := by decide
  obtain ⟨e', hstamped⟩ := (hstamp "/f" _ hfound).1 [] w hwrite
  exact ⟨by decide, by decide, hpairs, by decide, ⟨made, hentries, htick, hone⟩, hwrite, e',
    hstamped.found, hstamped.created, hstamped.modified⟩

end RamShell.Volume
