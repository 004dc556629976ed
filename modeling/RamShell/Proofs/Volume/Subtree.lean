import RamShell.Proofs.Volume.Children
import RamShell.Proofs.Volume.Rooted
/-!
# RamShell.Proofs.Volume.Subtree

What lies below a directory, in the order of a drawing. `subtree` goes down a bounded number of
levels, and whatever it finds comes from a text comparison over a flat table; nothing in it says that
the result is a tree. It is one in a rooted volume: `TreeOrder` says that every entry below the
directory is there, once and in no other place than directly behind the directories around it, and
that entries of one directory stay in storage order.

An entry lies below a directory if it has the names of the directory and more, so all facts about
two branches come from one: branches of different children have no entry in common, since their
names differ right behind those of the directory (`Sound.eq_of_prefix`). The main statement is
`Rooted.treeOrder_subtree`.
-/

namespace RamShell.Volume

/-- The entries below a directory, down to a number of levels: each directory is followed by what is
below it. -/
def subtree (v : Volume) : Nat → String → List Entry
  | 0, _ => []
  | levels + 1, dir =>
    (v.children dir).flatMap fun e =>
      e :: if e.isDirectory then v.subtree levels e.path else []

/-- An entry and what is below it. -/
def branch (v : Volume) (levels : Nat) (e : Entry) : List Entry :=
  e :: if e.isDirectory then v.subtree levels e.path else []

/-- A list of all entries below a directory down to a number of levels, in the order of a
drawing. -/
structure TreeOrder (v : Volume) (levels : Nat) (dir : String) (es : List Entry) : Prop where
  /-- Exactly the entries below the directory are listed. -/
  mem_iff : ∀ e, e ∈ es ↔
    e ∈ v.table.entries ∧ Path.Above dir e.path ∧ Path.depth e.path ≤ Path.depth dir + levels
  /-- No entry is listed twice. -/
  nodup : es.Nodup
  /-- What is below an entry is listed directly behind it, and nowhere else. -/
  gathered : ∀ before e after, es = before ++ e :: after →
    ∃ inside rest, after = inside ++ rest ∧ (∀ x ∈ inside, Path.Above e.path x.path) ∧
      ∀ x ∈ before ++ rest, ¬ Path.Above e.path x.path
  /-- Of two entries of one directory, the one stored first is listed first. -/
  stored : es.Pairwise fun a b =>
    Path.parent a.path = Path.parent b.path → [a, b].Sublist v.table.entries

variable {limits : Limits} {v : Volume} {dir : String} {levels : Nat} {c d e x : Entry}

theorem subtree_succ (v : Volume) (levels : Nat) (dir : String) :
    v.subtree (levels + 1) dir = (v.children dir).flatMap (v.branch levels) := rfl

/-! ### What is listed -/

/-- A child has the names of the directory and one more. -/
theorem Sound.exists_name (h : Sound limits v) (hc : c ∈ v.children dir) :
    c ∈ v.table.entries ∧ ∃ n, Path.names c.path = Path.names dir ++ [n] := by
  obtain ⟨hmem, hin⟩ := h.mem_children.mp hc
  exact ⟨hmem, (Path.parent_eq_iff (h.entries c hmem).canonical).mp hin⟩

theorem eq_or_mem_of_mem_branch (hx : x ∈ v.branch levels e) :
    x = e ∨ x ∈ v.subtree levels e.path := by
  rcases List.mem_cons.mp hx with rfl | hx
  · exact Or.inl rfl
  · split at hx
    · exact Or.inr hx
    · exact absurd hx List.not_mem_nil

/-- Whatever is listed is an entry below the directory, and not too far down. -/
theorem Sound.mem_subtree (h : Sound limits v) (hx : x ∈ v.subtree levels dir) :
    x ∈ v.table.entries ∧ Path.names dir <+: Path.names x.path ∧
      Path.depth dir < Path.depth x.path ∧ Path.depth x.path ≤ Path.depth dir + levels := by
  induction levels generalizing dir with
  | zero => exact absurd hx List.not_mem_nil
  | succ levels ih =>
    rw [subtree_succ] at hx
    obtain ⟨c, hc, hx⟩ := List.mem_flatMap.mp hx
    obtain ⟨hmem, n, hnames⟩ := h.exists_name hc
    have hdepth := Path.depth_of_child hnames
    have hstarts : Path.names dir <+: Path.names c.path := hnames ▸ List.prefix_append ..
    rcases eq_or_mem_of_mem_branch hx with rfl | hx
    · exact ⟨hmem, hstarts, by omega, by omega⟩
    · obtain ⟨hentry, hbelow, hlt, hle⟩ := ih hx
      exact ⟨hentry, hstarts.trans hbelow, by omega, by omega⟩

theorem Sound.mem_branch (h : Sound limits v) (he : e ∈ v.table.entries)
    (hx : x ∈ v.branch levels e) :
    x ∈ v.table.entries ∧ Path.names e.path <+: Path.names x.path := by
  rcases eq_or_mem_of_mem_branch hx with rfl | hx
  · exact ⟨he, List.prefix_rfl⟩
  · obtain ⟨hmem, hstarts, -⟩ := h.mem_subtree hx
    exact ⟨hmem, hstarts⟩

/-- The child of a directory on the way to an entry further down is a directory itself. -/
theorem Rooted.exists_child (h : Sound limits v) (hr : Rooted v) (he : e ∈ v.table.entries)
    {k : Path.Name} {ks : List Path.Name} (hks : ks ≠ [])
    (hnames : Path.names e.path = Path.names dir ++ [k] ++ ks) :
    ∃ c ∈ v.children dir, c.isDirectory = true ∧ Path.names c.path = Path.names dir ++ [k] := by
  have hproper : ∀ n ∈ Path.names dir ++ [k] ++ ks, Path.Proper n :=
    hnames ▸ Path.proper_names e.path
  have hthere := Table.kindAt_ne_unknown he
  rw [← Path.ofNames_names (h.entries e he).canonical, hnames] at hthere
  have hkind := hr.directory_above hproper hks hthere
  have hknown : v.table.kindAt (Path.ofNames (Path.names dir ++ [k])) ≠ .unknown := by
    rw [hkind]
    decide
  obtain ⟨c, hc, hpath⟩ := Table.exists_of_kindAt_ne_unknown hknown
  have hcnames : Path.names c.path = Path.names dir ++ [k] := by
    rw [hpath]
    exact Path.names_ofNames fun n hn => hproper n (List.mem_append_left _ hn)
  refine ⟨c, h.mem_children.mpr ⟨hc, ?_⟩, ?_, hcnames⟩
  · exact (Path.parent_eq_iff (h.entries c hc).canonical).mpr ⟨k, hcnames⟩
  · exact Table.isDirectory_of_kindAt (Table.find?_of_mem h.distinct hc) (hpath ▸ hkind)

/-- Nothing below a directory is left out. -/
theorem Rooted.mem_subtree (h : Sound limits v) (hr : Rooted v) (he : e ∈ v.table.entries)
    {ks : List Path.Name} (hks : ks ≠ []) (hnames : Path.names e.path = Path.names dir ++ ks)
    (hle : ks.length ≤ levels) : e ∈ v.subtree levels dir := by
  induction ks generalizing dir levels with
  | nil => exact absurd rfl hks
  | cons k ks ih =>
    obtain ⟨levels, rfl⟩ : ∃ n, levels = n + 1 := Nat.exists_eq_add_one.mpr (by simp at hle; omega)
    rw [List.length_cons] at hle
    rw [subtree_succ, List.mem_flatMap]
    by_cases hnil : ks = []
    · subst hnil
      have hin := (Path.parent_eq_iff (h.entries e he).canonical).mpr ⟨k, hnames⟩
      exact ⟨e, h.mem_children.mpr ⟨he, hin⟩, List.mem_cons_self ..⟩
    · rw [List.append_cons] at hnames
      obtain ⟨c, hc, hdir, hcnames⟩ := hr.exists_child h he hnil hnames
      refine ⟨c, hc, ?_⟩
      rw [branch, if_pos hdir]
      exact List.mem_cons_of_mem _ (ih hnil (hcnames ▸ hnames) (by omega))

/-! ### Branches -/

theorem Sound.eq_of_names (h : Sound limits v) (hc : c ∈ v.table.entries) (hd : d ∈ v.table.entries)
    (hnames : Path.names c.path = Path.names d.path) : c = d := by
  have hpath : c.path = d.path := by
    rw [← Path.ofNames_names (h.entries c hc).canonical, hnames,
      Path.ofNames_names (h.entries d hd).canonical]
  exact List.inj_on_of_nodup_map h.distinct hc hd hpath

/-- A path lies in the branch of one child only. -/
theorem Sound.eq_of_prefix (h : Sound limits v) (hc : c ∈ v.children dir) (hd : d ∈ v.children dir)
    {ns : List Path.Name} (hcs : Path.names c.path <+: ns) (hds : Path.names d.path <+: ns) :
    c = d := by
  obtain ⟨hcmem, m, hm⟩ := h.exists_name hc
  obtain ⟨hdmem, n, hn⟩ := h.exists_name hd
  have hlength : (Path.names c.path).length = (Path.names d.path).length := by simp [hm, hn]
  have hstarts := List.prefix_of_prefix_length_le hcs hds (Nat.le_of_eq hlength)
  exact h.eq_of_names hcmem hdmem (hstarts.eq_of_length hlength)

/-- The children of a directory are different entries in storage order. -/
theorem Sound.pairwise_children (h : Sound limits v) (dir : String) :
    (v.children dir).Pairwise fun c d =>
      c ∈ v.children dir ∧ d ∈ v.children dir ∧ c ≠ d ∧ [c, d].Sublist v.table.entries := by
  have hdistinct : v.table.entries.Nodup := h.distinct.of_map
  rw [List.pairwise_iff_forall_sublist]
  intro c d hcd
  have hmem := hcd.subset
  have hstored := hcd.trans (children_sublist v dir)
  have hne : c ≠ d := by simpa using hdistinct.sublist hstored
  exact ⟨hmem (by simp), hmem (by simp), hne, hstored⟩

/-! ### Two entries of one list -/

/-- What holds of two entries below a directory, the first of which is listed first. -/
structure Ordered (v : Volume) (a b : Entry) : Prop where
  /-- They are different. -/
  ne : a ≠ b
  /-- The second does not lie above the first. -/
  not_above : ¬ Path.Above b.path a.path
  /-- If they lie in one directory, the first is stored first. -/
  stored : Path.parent a.path = Path.parent b.path → [a, b].Sublist v.table.entries

/-- A child comes in front of what is below it. -/
theorem Sound.ordered_child (h : Sound limits v) (hc : c ∈ v.children dir)
    (hx : x ∈ v.subtree levels c.path) : Ordered v c x := by
  obtain ⟨hcmem, n, hn⟩ := h.exists_name hc
  obtain ⟨hxmem, -, hlt, -⟩ := h.mem_subtree hx
  have hdepth := Path.depth_of_child hn
  refine ⟨?_, ?_, ?_⟩
  · rintro rfl
    exact absurd hlt (Nat.lt_irrefl _)
  · intro habove
    have := ((Path.above_iff (h.entries x hxmem).canonical).mp habove).2
    omega
  · -- Entries of one directory lie equally far down, and these two do not.
    intro hparent
    obtain ⟨k, hk⟩ := Path.names_eq_parent_concat (h.entries c hcmem).canonical (by omega)
    obtain ⟨l, hl⟩ := Path.names_eq_parent_concat (h.entries x hxmem).canonical (by omega)
    have hkdepth := Path.depth_of_child hk
    have hldepth := Path.depth_of_child hl
    rw [hparent] at hkdepth
    omega

/-- The branch of a child comes in front of the branches of the children stored after it. -/
theorem Sound.ordered_branches (h : Sound limits v) (hc : c ∈ v.children dir)
    (hd : d ∈ v.children dir) (hne : c ≠ d) (hstored : [c, d].Sublist v.table.entries) {a b : Entry}
    (ha : a ∈ v.branch levels c) (hb : b ∈ v.branch levels d) : Ordered v a b := by
  obtain ⟨hcmem, m, hm⟩ := h.exists_name hc
  obtain ⟨hdmem, n, hn⟩ := h.exists_name hd
  obtain ⟨hamem, hca⟩ := h.mem_branch hcmem ha
  obtain ⟨hbmem, hdb⟩ := h.mem_branch hdmem hb
  have hcdepth := Path.depth_of_child hm
  have hddepth := Path.depth_of_child hn
  have hcle : Path.depth c.path ≤ Path.depth a.path := hca.length_le
  have hdle : Path.depth d.path ≤ Path.depth b.path := hdb.length_le
  refine ⟨?_, ?_, ?_⟩
  · rintro rfl
    exact hne (h.eq_of_prefix hc hd hca hdb)
  · intro habove
    have hba := ((Path.above_iff (h.entries b hbmem).canonical).mp habove).1
    exact hne (h.eq_of_prefix hc hd hca (hdb.trans hba))
  · intro hparent
    obtain ⟨k, hk⟩ := Path.names_eq_parent_concat (h.entries a hamem).canonical (by omega)
    obtain ⟨l, hl⟩ := Path.names_eq_parent_concat (h.entries b hbmem).canonical (by omega)
    have hadepth := Path.depth_of_child hk
    have hbdepth := Path.depth_of_child hl
    rw [← hparent] at hl hbdepth
    by_cases hfar : Path.depth c.path ≤ Path.depth (Path.parent a.path)
    · -- Further down, the directory that they lie in would be in both branches.
      have hcp := List.prefix_of_prefix_length_le hca (hk ▸ List.prefix_append ..) hfar
      have hdp := List.prefix_of_prefix_length_le hdb (hl ▸ List.prefix_append ..)
        (show Path.depth d.path ≤ Path.depth (Path.parent a.path) by omega)
      exact absurd (h.eq_of_prefix hc hd hcp hdp) hne
    · obtain rfl := h.eq_of_names hcmem hamem
        (hca.eq_of_length (show Path.depth c.path = Path.depth a.path by omega))
      obtain rfl := h.eq_of_names hdmem hbmem
        (hdb.eq_of_length (show Path.depth d.path = Path.depth b.path by omega))
      exact hstored

theorem Sound.pairwise_subtree (h : Sound limits v) (levels : Nat) (dir : String) :
    (v.subtree levels dir).Pairwise (Ordered v) := by
  induction levels generalizing dir with
  | zero => exact .nil
  | succ levels ih =>
    rw [subtree_succ, List.pairwise_flatMap]
    constructor
    · intro c hc
      refine List.pairwise_cons.mpr ⟨fun x hx => ?_, ?_⟩
      · split at hx
        · exact h.ordered_child hc hx
        · exact absurd hx List.not_mem_nil
      · split
        · exact ih c.path
        · exact .nil
    · refine (h.pairwise_children dir).imp ?_
      rintro c d ⟨hc, hd, hne, hstored⟩ a ha b hb
      exact h.ordered_branches hc hd hne hstored ha hb

/-! ### Entries with what is below them -/

/-- Each entry is followed by those below it, and none of them comes later. -/
def Gathered : List Entry → Prop
  | [] => True
  | e :: es =>
    (∃ inside rest, es = inside ++ rest ∧ (∀ x ∈ inside, Path.Above e.path x.path) ∧
      ∀ x ∈ rest, ¬ Path.Above e.path x.path) ∧ Gathered es

theorem gathered_append {as bs : List Entry} (ha : Gathered as) (hb : Gathered bs)
    (hapart : ∀ a ∈ as, ∀ b ∈ bs, ¬ Path.Above a.path b.path) : Gathered (as ++ bs) := by
  induction as with
  | nil => exact hb
  | cons a as ih =>
    obtain ⟨⟨inside, rest, rfl, hinside, hrest⟩, has⟩ := ha
    have hfirst := hapart a (List.mem_cons_self ..)
    refine ⟨⟨inside, rest ++ bs, List.append_assoc .., hinside, ?_⟩, ?_⟩
    · exact List.forall_mem_append.mpr ⟨hrest, hfirst⟩
    · exact ih has fun x hx => hapart x (List.mem_cons_of_mem _ hx)

theorem gathered_flatMap {cs : List Entry} {f : Entry → List Entry}
    (hf : ∀ c ∈ cs, Gathered (f c))
    (hapart : cs.Pairwise fun c d => ∀ a ∈ f c, ∀ b ∈ f d, ¬ Path.Above a.path b.path) :
    Gathered (cs.flatMap f) := by
  induction cs with
  | nil => trivial
  | cons c cs ih =>
    obtain ⟨hfirst, hrest⟩ := List.pairwise_cons.mp hapart
    rw [List.flatMap_cons]
    refine gathered_append (hf c (List.mem_cons_self ..))
      (ih (fun d hd => hf d (List.mem_cons_of_mem _ hd)) hrest) ?_
    intro a ha b hb
    obtain ⟨d, hd, hb⟩ := List.mem_flatMap.mp hb
    exact hfirst d hd a ha b hb

theorem Gathered.of_append {es before after : List Entry} (hes : Gathered es)
    (h : es = before ++ e :: after) :
    ∃ inside rest, after = inside ++ rest ∧ (∀ x ∈ inside, Path.Above e.path x.path) ∧
      ∀ x ∈ rest, ¬ Path.Above e.path x.path := by
  subst h
  induction before with
  | nil => exact hes.1
  | cons b before ih => exact ih hes.2

theorem Sound.gathered_subtree (h : Sound limits v) (levels : Nat) (dir : String) :
    Gathered (v.subtree levels dir) := by
  induction levels generalizing dir with
  | zero => trivial
  | succ levels ih =>
    rw [subtree_succ]
    refine gathered_flatMap ?_ ?_
    · intro c hc
      obtain ⟨hcmem, -⟩ := h.exists_name hc
      rw [branch]
      split
      · refine ⟨⟨_, [], (List.append_nil _).symm, fun x hx => ?_, by simp⟩, ih c.path⟩
        obtain ⟨-, hstarts, hlt, -⟩ := h.mem_subtree hx
        exact (Path.above_iff (h.entries c hcmem).canonical).mpr ⟨hstarts, hlt⟩
      · exact ⟨⟨[], [], rfl, by simp, by simp⟩, trivial⟩
    · refine (h.pairwise_children dir).imp ?_
      rintro c d ⟨hc, hd, hne, -⟩ a ha b hb habove
      obtain ⟨hamem, hca⟩ := h.mem_branch (h.exists_name hc).1 ha
      obtain ⟨-, hdb⟩ := h.mem_branch (h.exists_name hd).1 hb
      have hab := ((Path.above_iff (h.entries a hamem).canonical).mp habove).1
      exact hne (h.eq_of_prefix hc hd (hca.trans hab) hdb)

/-! ### The order of a drawing -/

/-- In a rooted volume, going down from a directory meets all entries below it in tree order. -/
theorem Rooted.treeOrder_subtree (h : Sound limits v) (hr : Rooted v) (hdir : Path.Canonical dir)
    (levels : Nat) : TreeOrder v levels dir (v.subtree levels dir) := by
  have hordered := h.pairwise_subtree levels dir
  refine ⟨?_, ?_, ?_, ?_⟩
  · intro e
    rw [Path.above_iff hdir]
    constructor
    · intro he
      obtain ⟨hmem, hstarts, hlt, hle⟩ := h.mem_subtree he
      exact ⟨hmem, ⟨hstarts, hlt⟩, hle⟩
    · rintro ⟨hmem, ⟨⟨ks, hks⟩, hlt⟩, hle⟩
      rw [Path.depth, Path.depth, ← hks, List.length_append] at hlt hle
      refine hr.mem_subtree h hmem ?_ hks.symm (by omega)
      rintro rfl
      exact absurd hlt (by simp)
  · exact hordered.imp fun hab => hab.ne
  · intro before e after hsplit
    obtain ⟨inside, rest, hafter, hinside, hrest⟩ := (h.gathered_subtree levels dir).of_append hsplit
    refine ⟨inside, rest, hafter, hinside, List.forall_mem_append.mpr ⟨?_, hrest⟩⟩
    -- What is listed in front of an entry is not below it.
    intro x hx
    rw [hsplit] at hordered
    exact ((List.pairwise_append.mp hordered).2.2 x hx e (List.mem_cons_self ..)).not_above
  · exact hordered.imp fun hab => hab.stored

end RamShell.Volume
