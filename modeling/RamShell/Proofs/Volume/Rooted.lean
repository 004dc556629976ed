import Mathlib.Data.List.Induction
import RamShell.Proofs.Volume.Run
/-!
# RamShell.Proofs.Volume.Rooted

The entries of a volume as a tree. A volume makes an entry wherever it is asked to, so nothing but
the care of its users keeps every entry inside a directory that exists. `Rooted` says that this
care was taken, and `Change.Placed` what it consists of: whatever makes an entry does so in a
directory.

The main statement is `Rooted.apply`: changes that are placed keep a volume rooted. Making
directories with their parents (`Rooted.createDirs`) and seeding (`Rooted.seed`) place whatever
they make, also when they stop half way.
-/

namespace RamShell.Volume

variable {limits : Limits} {v w : Volume} {c : Change} {p : String}

/-! ### What paths name -/

theorem kindAt_of_canonical {path : String} (hpath : Path.Canonical path) :
    v.kindAt path = v.table.kindAt path := by
  unfold kindAt
  rw [find?_eq hpath.ne_empty, hpath]
  rfl

namespace Table

variable {t : Table} {e : Entry}

theorem kindAt_eq_unknown_iff : t.kindAt p = .unknown ↔ t.find? p = none := by
  unfold kindAt
  cases t.find? p with
  | none => simp
  | some e => cases hdir : e.isDirectory <;> simp [Entry.kind, hdir]

theorem kindAt_ne_unknown (he : e ∈ t.entries) : t.kindAt e.path ≠ .unknown := by
  intro h
  exact find?_eq_none_iff.mp (kindAt_eq_unknown_iff.mp h) e he rfl

theorem exists_of_kindAt_ne_unknown (h : t.kindAt p ≠ .unknown) :
    ∃ e ∈ t.entries, e.path = p := by
  obtain ⟨e, he⟩ := Option.ne_none_iff_exists'.mp (mt kindAt_eq_unknown_iff.mpr h)
  exact ⟨e, mem_of_find? he, path_of_find? he⟩

theorem kindAt_of_find? (he : t.find? p = some e) : t.kindAt p = e.kind := by
  unfold kindAt
  rw [he]
  rfl

theorem kindAt_eq_directory_iff :
    t.kindAt p = .directory ↔ ∃ e, t.find? p = some e ∧ e.isDirectory = true := by
  unfold kindAt
  cases t.find? p with
  | none => simp
  | some e => cases hdir : e.isDirectory <;> simp [Entry.kind, hdir]

theorem kindAt_eq_file_iff :
    t.kindAt p = .file ↔ ∃ e, t.find? p = some e ∧ e.isDirectory = false := by
  unfold kindAt
  cases t.find? p with
  | none => simp
  | some e => cases hdir : e.isDirectory <;> simp [Entry.kind, hdir]

theorem isDirectory_of_kindAt (he : t.find? p = some e) (h : t.kindAt p = .directory) :
    e.isDirectory = true := by
  obtain ⟨d, hd, hdir⟩ := kindAt_eq_directory_iff.mp h
  obtain rfl := Option.some.inj (he.symm.trans hd)
  exact hdir

theorem kindAt_insert (hnew : t.find? e.path = none) (p : String) :
    (t.insert e).kindAt p = if p = e.path then e.kind else t.kindAt p := by
  unfold kindAt
  rw [find?_insert hnew]
  split
  · rfl
  · rfl

/-- An update that keeps kinds is not seen in what paths name. -/
theorem kindAt_update {f : Entry → Entry} (hf : ∀ e, (f e).path = e.path)
    (hkind : ∀ e, (f e).isDirectory = e.isDirectory) (path p : String) :
    (t.update path f).kindAt p = t.kindAt p := by
  have hsame : Entry.kind ∘ f = Entry.kind := by
    funext e
    rw [Function.comp_apply, Entry.kind, Entry.kind, hkind]
  unfold kindAt
  rw [find?_update hf]
  split
  · rw [Option.map_map, hsame]
  · rfl

theorem kindAt_without (ht : t.Distinct) {path : String} (he : t.find? path = some e)
    (p : String) : (t.without path).kindAt p = if p = path then .unknown else t.kindAt p := by
  unfold kindAt
  rw [find?_without ht he]
  split
  · rfl
  · rfl

end Table

/-- What every path names after a change that took place. -/
def Change.kinds (m : String → Kind) : Change → String → Kind
  | .create path isDirectory, p =>
    if p = Path.normalize path then (if isDirectory then .directory else .file) else m p
  | .write path _, p => if p = Path.normalize path then .file else m p
  | .delete path, p => if p = Path.normalize path then .unknown else m p
  | .setPermissions _ _, p => m p
  | .reset, p => if p = Path.root then .directory else .unknown

theorem kindAt_ofLimits (limits : Limits) (p : String) :
    (ofLimits limits).table.kindAt p = if p = Path.root then .directory else .unknown := by
  unfold Table.kindAt
  rw [find?_ofLimits]
  split
  · rfl
  · rfl

theorem kindAt_effect (h : Sound limits v) (he : Effect v c w) (p : String) :
    w.table.kindAt p = c.kinds v.table.kindAt p := by
  cases he with
  | made _ _ hnew => exact Table.kindAt_insert hnew p
  | @filed path bytes _ _ _ hnew =>
    exact Table.kindAt_insert (e := .filled (Path.normalize path) bytes.length _ _) hnew p
  | @rewritten path bytes e place arena _ _ hfound hfile =>
    have hkind : v.table.kindAt (Path.normalize path) = .file := by
      rw [Table.kindAt_of_find? hfound, Entry.kind, hfile, if_neg Bool.false_ne_true]
    refine (Table.kindAt_update (Entry.withContent_path _ _ _)
      (Entry.withContent_isDirectory _ _ _) _ p).trans ?_
    show v.table.kindAt p = if p = Path.normalize path then .file else v.table.kindAt p
    split
    · next hp => rw [hp, hkind]
    · rfl
  | removed _ _ hfound => exact Table.kindAt_without h.distinct hfound p
  | permitted =>
    exact Table.kindAt_update (Entry.withMode_path _ _) (Entry.withMode_isDirectory _ _) _ p
  | reset =>
    rw [h.reset_eq]
    exact kindAt_ofLimits limits p

/-! ### Directories that stay -/

/-- Whether a change can take a directory away. -/
def Change.Drops (p : String) : Change → Prop
  | .delete path => Path.normalize path = p
  | .reset => p ≠ Path.root
  | _ => False

/-- A directory stays one unless it is deleted. -/
theorem directory_effect (h : Sound limits v) (he : Effect v c w) (hc : ¬ c.Drops p)
    (hp : v.table.kindAt p = .directory) : w.table.kindAt p = .directory := by
  rw [kindAt_effect h he]
  -- What is made had no entry before, and what is written to is no directory.
  cases he with
  | made hpath hshort hnew =>
    refine (if_neg ?_).trans hp
    rintro rfl
    exact absurd hp (by simp [Table.kindAt, hnew])
  | filed hpath hsize hshort hnew =>
    refine (if_neg ?_).trans hp
    rintro rfl
    exact absurd hp (by simp [Table.kindAt, hnew])
  | rewritten hpath hsize hfound hfile =>
    refine (if_neg ?_).trans hp
    rintro rfl
    exact absurd hp (by simp [Table.kindAt_of_find? hfound, Entry.kind, hfile])
  | removed => exact (if_neg fun h => hc h.symm).trans hp
  | permitted => exact hp
  | reset => exact if_pos (not_not.mp hc)

theorem directory_run {cs : List Change} (h : Sound limits v) (hrun : Run v cs w)
    (hcs : ∀ c ∈ cs, ¬ c.Drops p) (hp : v.table.kindAt p = .directory) :
    w.table.kindAt p = .directory := by
  induction hrun with
  | done => exact hp
  | step hc _ ih =>
    have he := effect_of_ok h.used_le hc
    exact ih (h.effect he) (fun d hd => hcs d (List.mem_cons_of_mem _ hd))
      (directory_effect h he (hcs _ (List.mem_cons_self ..)) hp)

theorem directory_apply (h : Sound limits v) (hc : ¬ c.Drops p)
    (hp : v.table.kindAt p = .directory) : (v.apply c).2.table.kindAt p = .directory := by
  refine directory_run h (h.run_attempt c) (fun d hd => ?_) hp
  obtain rfl := eq_of_mem_attempt hd
  exact hc

theorem Sound.kindAt_root (h : Sound limits v) : v.table.kindAt Path.root = .directory := by
  obtain ⟨e, hfound, hdir⟩ := h.find?_root
  rw [Table.kindAt_of_find? hfound, Entry.kind, if_pos hdir]

/-! ### Rooted volumes -/

/-- Every entry but the root lies in a directory. -/
def Rooted (v : Volume) : Prop :=
  ∀ e ∈ v.table.entries, e.path ≠ Path.root →
    v.table.kindAt (Path.parent e.path) = .directory

/-- A change makes entries only in directories. -/
def Change.Placed (v : Volume) : Change → Prop
  | .create path _ => v.table.kindAt (Path.parent (Path.normalize path)) = .directory
  | .write path _ =>
    v.table.kindAt (Path.normalize path) ≠ .unknown ∨
      v.table.kindAt (Path.parent (Path.normalize path)) = .directory
  | _ => True

theorem Rooted.parent (hr : Rooted v) (hp : v.table.kindAt p ≠ .unknown) (hroot : p ≠ Path.root) :
    v.table.kindAt (Path.parent p) = .directory := by
  obtain ⟨e, he, rfl⟩ := Table.exists_of_kindAt_ne_unknown hp
  exact hr e he hroot

theorem rooted_ofLimits (limits : Limits) : Rooted (ofLimits limits) := by
  intro e he hroot
  have hkind := Table.kindAt_ne_unknown he
  rw [kindAt_ofLimits, if_neg hroot] at hkind
  exact absurd rfl hkind

/-- An entry lies below its parent. -/
theorem isBelow_parent {e : Entry} (he : Path.Canonical e.path) (hroot : e.path ≠ Path.root) :
    e.isBelow (Path.childStem (Path.parent e.path)) = true := by
  obtain ⟨ns, n, hns, hn, hpath⟩ := Path.exists_concat he hroot
  unfold Entry.isBelow
  rw [hpath, Path.parent_ofNames_concat ns hn.slashless, Path.below?_parent hns]
  simpa using hn.ne_nil

/-- A directory is not deleted as long as there are entries in it. -/
theorem not_drops_parent (h : Sound limits v) (hr : Rooted v) (he : Effect v c w)
    (hreset : c ≠ .reset) {e : Entry} (hmem : e ∈ v.table.entries) (hroot : e.path ≠ Path.root) :
    ¬ c.Drops (Path.parent e.path) := by
  intro hdrops
  cases he with
  | @removed path d _ _ hfound hempty =>
    have hpath : Path.normalize path = Path.parent e.path := hdrops
    have hkind := hr e hmem hroot
    have hdir : d.isDirectory = true := Table.isDirectory_of_kindAt hfound (hpath ▸ hkind)
    have hbelow := isBelow_parent (h.entries e hmem).canonical hroot
    have hsome : v.table.hasBelow (Path.childStem (Path.normalize path)) = true := by
      rw [hpath]
      exact List.any_eq_true.mpr ⟨e, hmem, hbelow⟩
    rw [hempty hdir] at hsome
    exact absurd hsome Bool.false_ne_true
  | reset => exact hreset rfl
  | _ => exact hdrops

/-- A change that names something new names it in a directory, and drops nothing. -/
theorem parent_of_new (h : Sound limits v) (hplaced : c.Placed v) (he : Effect v c w)
    (hreset : c ≠ .reset) (hold : v.table.kindAt p = .unknown)
    (hnew : w.table.kindAt p ≠ .unknown) :
    v.table.kindAt (Path.parent p) = .directory ∧ ¬ c.Drops (Path.parent p) := by
  rw [kindAt_effect h he] at hnew
  cases c with
  | create path isDirectory =>
    have hp : p = Path.normalize path := by
      by_contra hne
      exact hnew ((if_neg hne).trans hold)
    rw [hp]
    exact ⟨hplaced, id⟩
  | write path bytes =>
    have hp : p = Path.normalize path := by
      by_contra hne
      exact hnew ((if_neg hne).trans hold)
    rw [hp] at hold ⊢
    exact ⟨hplaced.resolve_left (not_not.mpr hold), id⟩
  | delete path =>
    refine absurd ?_ hnew
    show (if _ then _ else _) = _
    split
    · rfl
    · exact hold
  | setPermissions path mode => exact absurd hold hnew
  | reset => exact absurd rfl hreset

theorem Rooted.effect (h : Sound limits v) (hr : Rooted v) (hplaced : c.Placed v)
    (he : Effect v c w) : Rooted w := by
  by_cases hreset : c = .reset
  · subst hreset
    cases he with
    | reset =>
      rw [h.reset_eq]
      exact rooted_ofLimits limits
  intro e hmem hroot
  by_cases hold : v.table.kindAt e.path = .unknown
  · obtain ⟨hparent, hdrops⟩ :=
      parent_of_new h hplaced he hreset hold (Table.kindAt_ne_unknown hmem)
    exact directory_effect h he hdrops hparent
  · -- What was there before has its directory still, since that was not empty.
    obtain ⟨d, hd, hpath⟩ := Table.exists_of_kindAt_ne_unknown hold
    rw [← hpath] at hroot ⊢
    exact directory_effect h he (not_drops_parent h hr he hreset hd hroot) (hr d hd hroot)

/-- Changes that make entries only in directories keep a volume rooted, and so do those that are
refused. -/
theorem Rooted.apply (h : Sound limits v) (hr : Rooted v) (hplaced : c.Placed v) :
    Rooted (v.apply c).2 := by
  rcases apply_cases h.used_le c with ⟨e, he⟩ | ⟨w, hw, heffect⟩
  · rw [he]
    exact hr
  · rw [hw]
    exact hr.effect h hplaced heffect

/-- Every directory on the way to an entry is there. -/
theorem Rooted.directory_above (hr : Rooted v) {ns ks : List Path.Name}
    (hns : ∀ n ∈ ns ++ ks, Path.Proper n) (hks : ks ≠ [])
    (h : v.table.kindAt (Path.ofNames (ns ++ ks)) ≠ .unknown) :
    v.table.kindAt (Path.ofNames ns) = .directory := by
  induction ks using List.reverseRecOn with
  | nil => exact absurd rfl hks
  | append_singleton ks k ih =>
    rw [← List.append_assoc] at hns h
    -- One step up from the entry, and the directory there is an entry itself.
    have hroot : Path.ofNames (ns ++ ks ++ [k]) ≠ Path.root := by
      intro heq
      have hnil := Path.ofNames_injective hns (fun _ hn => absurd hn List.not_mem_nil) heq
      exact absurd hnil (by simp)
    have hparent := hr.parent h hroot
    rw [Path.parent_ofNames_concat _ (hns k (by simp)).slashless] at hparent
    by_cases hnil : ks = []
    · rw [hnil, List.append_nil] at hparent
      exact hparent
    · exact ih (fun n hn => hns n (List.mem_append_left _ hn)) hnil (by simp [hparent])

/-- A file has nothing below it: what lies below an entry lies below a directory. -/
theorem Rooted.isDirectory_of_below (h : Sound limits v) (hr : Rooted v) {d e : Entry}
    (hd : d ∈ v.table.entries) (he : e ∈ v.table.entries)
    (hbelow : e.isBelow (Path.childStem d.path) = true) : d.isDirectory = true := by
  have hdir := (h.entries d hd).canonical
  have hpath := (h.entries e he).canonical
  have hkind : v.table.kindAt d.path = .directory := by
    unfold Entry.isBelow at hbelow
    split at hbelow
    · next rest hrest =>
      obtain ⟨ks, hks, hnames⟩ := Path.names_of_below? hpath hrest (by simpa using hbelow)
      have hthere := Table.kindAt_ne_unknown he
      rw [← Path.ofNames_names hpath, hnames] at hthere
      rw [← Path.ofNames_names hdir]
      exact hr.directory_above (hnames ▸ Path.proper_names e.path) hks hthere
    · exact absurd hbelow Bool.false_ne_true
  exact Table.isDirectory_of_kindAt (Table.find?_of_mem h.distinct hd) hkind

/-! ### Directories with their parents -/

/-- From the root down to a path, each directory is the parent of the next. -/
theorem isChain_chain {ns : List Path.Name} (hns : ∀ n ∈ ns, Path.Proper n) :
    (Path.root :: chain ns).IsChain fun a b => Path.parent b = a := by
  have hall : Path.root :: chain ns =
      (List.range (ns.length + 1)).map fun i => Path.ofNames (ns.take i) := by
    rw [List.range_succ_eq_map, List.map_cons, List.map_map]
    rfl
  rw [hall, List.isChain_iff_getElem]
  intro i hi
  rw [List.length_map, List.length_range] at hi
  have hlt : i < ns.length := by omega
  rw [List.getElem_map, List.getElem_map, List.getElem_range, List.getElem_range,
    List.take_succ_eq_append_getElem hlt]
  exact Path.parent_ofNames_concat _ (hns _ (List.getElem_mem hlt)).slashless

theorem not_drops_of_mem_missing {dirs : List String} (h : c ∈ v.changesOfMissing dirs) :
    ¬ c.Drops p := by
  obtain ⟨dir, -, rfl⟩ := mem_changesOfMissing h
  exact id

/-- Directories made one in the other keep a volume rooted. If all of them could be made, all of
them are there. -/
theorem Rooted.createMissing {dir : String} {dirs : List String} (h : Sound limits v)
    (hr : Rooted v) (hdir : v.table.kindAt dir = .directory)
    (hchain : (dir :: dirs).IsChain fun a b => Path.parent b = a)
    (hcanonical : ∀ d ∈ dirs, Path.Canonical d) :
    Rooted (v.createMissing dirs).2 ∧
      ((v.createMissing dirs).1 = .ok () →
        ∀ d ∈ dirs, (v.createMissing dirs).2.table.kindAt d = .directory) := by
  induction dirs generalizing v dir with
  | nil => exact ⟨hr, fun _ d hd => absurd hd List.not_mem_nil⟩
  | cons next dirs ih =>
    obtain ⟨hparent, hchain⟩ := List.isChain_cons_cons.mp hchain
    have hnext := hcanonical next (List.mem_cons_self ..)
    have hrest := fun d hd => hcanonical d (List.mem_cons_of_mem _ hd)
    -- Once `next` is a directory, it stays one while the others are made in it.
    have hgo : ∀ {w : Volume}, Sound limits w → Rooted w → w.table.kindAt next = .directory →
        Rooted (w.createMissing dirs).2 ∧
          ((w.createMissing dirs).1 = .ok () →
            ∀ d ∈ next :: dirs, (w.createMissing dirs).2.table.kindAt d = .directory) := by
      intro w hw hrw hthere
      obtain ⟨hrooted, hmade⟩ := ih hw hrw hthere hchain hrest
      refine ⟨hrooted, fun hok d hd => ?_⟩
      rcases List.mem_cons.mp hd with rfl | hd
      · exact directory_run hw (hw.run_createMissing dirs)
          (fun c hc => not_drops_of_mem_missing hc) hthere
      · exact hmade hok d hd
    rw [Volume.createMissing]
    cases hfound : v.table.find? next with
    | some e =>
      dsimp only
      cases hkind : e.isDirectory with
      | true =>
        rw [if_pos rfl]
        refine hgo h hr ?_
        rw [Table.kindAt_of_find? hfound, Entry.kind, if_pos hkind]
      | false => exact ⟨hr, fun hok => absurd hok (by simp)⟩
    | none =>
      dsimp only
      rcases create_effect v next true with ⟨err, hfailed⟩ | ⟨w, hmade, heffect⟩
      · rw [hfailed]
        exact ⟨hr, fun hok => absurd hok (by simp)⟩
      · rw [hmade]
        have hplaced : (Change.create next true).Placed v := by
          rw [Change.Placed, hnext, hparent]
          exact hdir
        refine hgo (h.effect heffect) (hr.effect h hplaced heffect) ?_
        rw [kindAt_effect h heffect]
        exact if_pos hnext.symm

/-- Making a directory with its parents keeps a volume rooted, also if it fails half way. -/
theorem Rooted.createDirs (h : Sound limits v) (hr : Rooted v) (path : String) :
    Rooted (v.createDirs path).2 ∧
      ((v.createDirs path).1 = .ok () →
        (v.createDirs path).2.table.kindAt (Path.normalize path) = .directory) := by
  unfold Volume.createDirs
  rcases keyOf_cases path with ⟨-, hkey⟩ | ⟨-, hkey⟩
  · rw [hkey]
    exact ⟨hr, fun hok => absurd hok (by simp)⟩
  · rw [hkey]
    dsimp only
    rw [Path.names_normalize]
    have hproper := Path.proper_names path
    obtain ⟨hrooted, hmade⟩ := hr.createMissing h h.kindAt_root (isChain_chain hproper)
      fun d hd => canonical_of_mem_chain hproper hd
    refine ⟨hrooted, fun hok => ?_⟩
    by_cases hnil : Path.names path = []
    · -- The root is on no way down.
      rw [Path.normalize, hnil]
      exact (h.run (h.run_createMissing _)).kindAt_root
    · refine hmade hok _ (List.mem_map.mpr ⟨(Path.names path).length - 1, ?_, ?_⟩)
      · have := List.length_pos_of_ne_nil hnil
        exact List.mem_range.mpr (by omega)
      · have := List.length_pos_of_ne_nil hnil
        rw [Nat.sub_add_cancel this, List.take_length]
        rfl

/-! ### Seeding -/

theorem Rooted.addDirs (h : Sound limits v) (hr : Rooted v) (dirs : List String) :
    Rooted (v.addDirs dirs).2 ∧
      ((v.addDirs dirs).1 = .ok () →
        ∀ d ∈ dirs, (v.addDirs dirs).2.table.kindAt (Path.normalize d) = .directory) := by
  induction dirs generalizing v with
  | nil => exact ⟨hr, fun _ d hd => absurd hd List.not_mem_nil⟩
  | cons dir dirs ih =>
    obtain ⟨hrooted, hthere⟩ := hr.createDirs h dir
    have hsound := h.createDirs dir
    rw [Volume.addDirs]
    rcases hmade : v.createDirs dir with ⟨(e | ⟨⟨⟩⟩), w⟩
    · rw [hmade] at hrooted
      exact ⟨hrooted, fun hok => absurd hok (by simp)⟩
    · rw [hmade] at hrooted hthere hsound
      obtain ⟨hrest, hall⟩ := ih hsound hrooted
      refine ⟨hrest, fun hok d hd => ?_⟩
      rcases List.mem_cons.mp hd with rfl | hd
      · refine directory_run hsound (hsound.run_addDirs dirs) (fun c hc => ?_) (hthere rfl)
        obtain ⟨-, -, made, -, rfl⟩ := mem_changesOfAddDirs hc
        exact id
      · exact hall hok d hd

theorem Rooted.addFixture {f : Fixture} (h : Sound limits v) (hr : Rooted v)
    (hparent : v.table.kindAt (Path.parent (Path.normalize f.path)) = .directory) :
    Rooted (v.addFixture f).2 := by
  unfold Volume.addFixture
  rcases write_effect h.used_le f.path f.content with ⟨e, he⟩ | ⟨w, hw, heffect⟩
  · rw [he]
    exact hr
  · rw [hw]
    have hplaced : (Change.write f.path f.content).Placed v := Or.inr hparent
    exact (hr.effect h hplaced heffect).apply (c := .setPermissions f.path f.mode)
      (h.effect heffect) trivial

theorem Rooted.addFixtures {fs : List Fixture} (h : Sound limits v) (hr : Rooted v)
    (hparents : ∀ f ∈ fs, v.table.kindAt (Path.parent (Path.normalize f.path)) = .directory) :
    Rooted (v.addFixtures fs).2 := by
  induction fs generalizing v with
  | nil => exact hr
  | cons f fs ih =>
    have hrest := fun g hg => hparents g (List.mem_cons_of_mem _ hg)
    have hone := h.run_addFixture f
    have hrooted := hr.addFixture h (hparents f (List.mem_cons_self ..))
    have hsound := h.run hone
    have hkept : ∀ g ∈ fs, (v.addFixture f).2.table.kindAt
        (Path.parent (Path.normalize g.path)) = .directory := by
      intro g hg
      refine directory_run h hone (fun c hc => ?_) (hrest g hg)
      rcases mem_changesOfFixture hc with rfl | rfl <;> exact id
    rw [Volume.addFixtures]
    split
    · exact ih h hr hrest
    · rcases hadded : v.addFixture f with ⟨(e | ⟨⟨⟩⟩), w⟩
      · rw [hadded] at hrooted
        exact hrooted
      · rw [hadded] at hrooted hsound hkept
        exact ih hsound hrooted hkept

/-- The files of the first boot lie in the root or in one of the standard directories. -/
theorem parent_fixture : ∀ f ∈ fixtures,
    Path.parent (Path.normalize f.path) = Path.root ∨
      ∃ d ∈ skeletonDirs, Path.parent (Path.normalize f.path) = Path.normalize d := by
  decide

/-- Seeding keeps a volume rooted, also if it fails half way. -/
theorem Rooted.seed (h : Sound limits v) (hr : Rooted v) : Rooted v.seed.2 := by
  obtain ⟨hdirs, hthere⟩ := hr.addDirs h skeletonDirs
  rcases seed_cases v with ⟨e, w, hrow, hseed⟩ | ⟨w, hrow, hseed⟩
  · rw [hrow] at hdirs
    rwa [hseed]
  · have hsound := h.of_addDirs hrow
    rw [hrow] at hdirs hthere
    rw [hseed]
    refine hdirs.addFixtures hsound fun f hf => ?_
    rcases parent_fixture f hf with hroot | ⟨d, hd, hparent⟩
    · rw [hroot]
      exact hsound.kindAt_root
    · rw [hparent]
      exact hthere rfl d hd

end RamShell.Volume
