import RamShell.Proofs.Path.Canonical
/-!
# RamShell.Proofs.Path.Child

One name down, and back. A child of a directory is found by the text of its path: it starts with
the stem of the directory, and no slash follows. What is meant is that the directory is its parent,
and the two are the same for canonical paths (`below?_name_iff`). The last name of a path and its
parent are all there is to it: joined again they give the path back (`join_parent_baseName`), also
with the slash that listings put behind the name of a directory.

Further down, a directory lies above the paths that have its names and more (`above_iff`), and the
directories between the two are met one after the other (`between_eq_cons`).
-/

namespace RamShell.Path

variable {p dir name : String} {n : Name}

/-! ### Joining -/

/-- Joining walks on from the directory. -/
theorem join_eq_normalize (dir name : String) : join dir name = normalize (dir ++ "/" ++ name) := by
  have hnames : names (childStem dir ++ name) = names (dir ++ "/" ++ name) := by
    rw [names_append_slash, childStem]
    cases hdir : names dir with
    | nil => exact names_append_slash "" name
    | cons n ns =>
      dsimp only
      rw [names_append_slash, ← hdir, names_ofNames (proper_names dir)]
  rw [join, normalize, hnames, normalize]

/-- Joining a directory with a name adds the name. -/
theorem join_ofList (hn : Proper n) (dir : String) :
    join dir (String.ofList n) = ofNames (names dir ++ [n]) := by
  rw [join_eq_normalize, normalize, names_append_slash, String.toList_ofList,
    Text.pieces_of_free hn.slashless, List.foldl_cons, enter_of_proper hn]
  simp

/-- A slash behind the name does not count. -/
theorem join_append_slash (dir name : String) : join dir (name ++ "/") = join dir name := by
  have hname : dir ++ "/" ++ (name ++ "/") = dir ++ "/" ++ name ++ "/" ++ "" := by
    simp [String.append_assoc]
  rw [join_eq_normalize, join_eq_normalize, hname, normalize, names_append_slash]
  simp [normalize]

/-! ### The last name -/

/-- The last name of a path that was written from names. -/
theorem baseName_ofNames_concat (ns : List Name) (hn : ∀ c ∈ n, isSlash c = false) :
    baseName (ofNames (ns ++ [n])) = String.ofList n := by
  have htake : (ns.flatMap ('/' :: ·) ++ '/' :: n).reverse.takeWhile (!isSlash ·) = n.reverse := by
    rw [List.reverse_append, List.reverse_cons, List.append_assoc, List.singleton_append,
      List.takeWhile_append_of_pos fun c hc => by simp [hn c (List.mem_reverse.mp hc)],
      List.takeWhile_cons_of_neg (by decide), List.append_nil]
  rw [baseName, toList_ofNames_concat, htake, List.reverse_reverse]

/-- A canonical path is its parent joined with its last name. -/
theorem join_parent_baseName (hp : Canonical p) (hr : p ≠ root) :
    join (parent p) (baseName p) = p := by
  obtain ⟨ns, n, hns, hn, rfl⟩ := exists_concat hp hr
  rw [parent_ofNames_concat ns hn.slashless, baseName_ofNames_concat ns hn.slashless,
    join_ofList hn, names_ofNames hns]

/-- Joining starts from where the directory is, whatever its spelling. -/
theorem join_normalize (dir name : String) : join (normalize dir) name = join dir name := by
  rw [join, childStem_normalize, join]

/-! ### Children -/

/-- The children of a directory have its names and one more. -/
theorem parent_eq_iff (hp : Canonical p) :
    p ≠ root ∧ parent p = normalize dir ↔ ∃ n, names p = names dir ++ [n] := by
  constructor
  · rintro ⟨hroot, hparent⟩
    obtain ⟨ns, n, hns, hn, rfl⟩ := exists_concat hp hroot
    rw [parent_ofNames_concat ns hn.slashless] at hparent
    have hproper : ∀ m ∈ ns ++ [n], Proper m :=
      List.forall_mem_append.mpr ⟨hns, List.forall_mem_singleton.mpr hn⟩
    refine ⟨n, ?_⟩
    rw [names_ofNames hproper, ← names_normalize dir, ← hparent, names_ofNames hns]
  · rintro ⟨n, hnames⟩
    have hn : Proper n := proper_names p n (by simp [hnames])
    constructor
    · rintro rfl
      exact absurd (congrArg List.length hnames) (by simp [show names root = [] from rfl])
    · rw [← ofNames_names hp, hnames, parent_ofNames_concat _ hn.slashless, normalize]

/-- A path that goes on after the stem of a directory with one more name is one whose parent is the
directory. -/
theorem below?_name_iff (hp : Canonical p) :
    (∃ rest, below? (childStem dir) p = some rest ∧ rest ≠ [] ∧ ∀ c ∈ rest, isSlash c = false) ↔
      p ≠ root ∧ parent p = normalize dir := by
  rw [parent_eq_iff hp]
  constructor
  · rintro ⟨rest, hbelow, hrest, hfree⟩
    refine ⟨rest, ?_⟩
    rw [names_eq_of_below? hp hbelow hrest, Text.pieces_of_free hfree]
  · rintro ⟨n, hnames⟩
    have hn : Proper n := proper_names p n (by simp [hnames])
    refine ⟨n, ?_, hn.ne_nil, hn.slashless⟩
    rw [← childStem_normalize, normalize, ← ofNames_names hp, hnames]
    exact below?_parent (proper_names dir)

/-! ### On the way down -/

/-- Whether `dir` is the path of a directory on the way to `path`: what the first names of `path`
lead to, but not all of them. -/
def Above (dir path : String) : Prop :=
  ∃ ns ks, ks ≠ [] ∧ names path = ns ++ ks ∧ dir = ofNames ns

/-- How many names lead to a path. -/
def depth (path : String) : Nat := (names path).length

/-- A directory lies above the paths that have its names and more. -/
theorem above_iff (hdir : Canonical dir) :
    Above dir p ↔ names dir <+: names p ∧ depth dir < depth p := by
  constructor
  · rintro ⟨ns, ks, hks, hnames, rfl⟩
    have hns : ∀ n ∈ ns, Proper n := fun n hn => proper_names p n (by simp [hnames, hn])
    have hpos := List.length_pos_of_ne_nil hks
    rw [depth, depth, names_ofNames hns, hnames, List.length_append]
    exact ⟨List.prefix_append ns ks, by omega⟩
  · rintro ⟨⟨ks, hnames⟩, hlt⟩
    refine ⟨names dir, ks, ?_, hnames.symm, (ofNames_names hdir).symm⟩
    rintro rfl
    rw [depth, depth, ← hnames, List.append_nil] at hlt
    exact absurd hlt (Nat.lt_irrefl _)

/-- A directory above a path is found by following some of its names, but not all. -/
theorem above_iff_exists_take :
    Above dir p ↔ ∃ i, i < depth p ∧ ofNames ((names p).take i) = dir := by
  constructor
  · rintro ⟨ns, ks, hks, hnames, rfl⟩
    have hpos := List.length_pos_of_ne_nil hks
    refine ⟨ns.length, ?_, ?_⟩
    · rw [depth, hnames, List.length_append]
      omega
    · rw [hnames, List.take_left]
  · rintro ⟨i, hi, rfl⟩
    refine ⟨(names p).take i, (names p).drop i, ?_, (List.take_append_drop ..).symm, rfl⟩
    rw [ne_eq, List.drop_eq_nil_iff]
    exact Nat.not_le.mpr hi

instance (dir path : String) : Decidable (Above dir path) :=
  decidable_of_iff _ above_iff_exists_take.symm

/-- The paths that go on after the stem of a directory are those that the directory lies above. -/
theorem below?_iff_above (hdir : Canonical dir) (hp : Canonical p) :
    (∃ rest, below? (childStem dir) p = some rest ∧ rest ≠ []) ↔ Above dir p := by
  constructor
  · rintro ⟨rest, hbelow, hrest⟩
    obtain ⟨ks, hks, hnames⟩ := names_of_below? hp hbelow hrest
    exact ⟨names dir, ks, hks, hnames, (ofNames_names hdir).symm⟩
  · rintro ⟨ns, ks, hks, hnames, rfl⟩
    obtain ⟨k, ks, rfl⟩ := List.exists_cons_of_ne_nil hks
    have hns : ∀ n ∈ ns, Proper n := fun n hn => proper_names p n (by simp [hnames, hn])
    have hk : Proper k := proper_names p k (by simp [hnames])
    refine ⟨k ++ ks.flatMap ('/' :: ·), ?_, by simp [hk.ne_nil]⟩
    rw [below?, List.isPrefixOf?_eq_some_iff_append_eq, toList_childStem_ofNames hns,
      ← ofNames_names hp, hnames, toList_ofNames (by simp)]
    simp

/-- The directories between `dir` and a path below it, from the outside in: what more and more
names of the path lead to. -/
def between (dir path : String) : List String :=
  (List.range' (depth dir + 1) (depth path - depth dir - 1)).map fun i =>
    ofNames ((names path).take i)

variable {q : String}

theorem depth_of_child (h : names p = names dir ++ [n]) : depth p = depth dir + 1 := by
  rw [depth, h, List.length_append, depth, List.length_singleton]

/-- A path below the root has the names of its parent and one more. -/
theorem names_eq_parent_concat (hp : Canonical p) (hpos : 0 < depth p) :
    ∃ n, names p = names (parent p) ++ [n] := by
  have hroot : p ≠ root := by
    rintro rfl
    exact absurd hpos (by decide)
  exact (parent_eq_iff hp).mp ⟨hroot, (canonical_parent hp).symm⟩

/-- Nothing lies between a directory and its children. -/
theorem between_child (h : names p = names dir ++ [n]) : between dir p = [] := by
  have hdepth := depth_of_child h
  have hnone : depth p - depth dir - 1 = 0 := by omega
  rw [between, hnone, List.range'_zero, List.map_nil]

/-- The first directory on the way is the child of `dir` that the path lies below. -/
theorem between_eq_cons (hq : Canonical q) (hchild : names q = names dir ++ [n])
    (hstarts : names q <+: names p) (hlt : depth q < depth p) :
    between dir p = q :: between q p := by
  have hdepth := depth_of_child hchild
  have hcount : depth p - depth dir - 1 = depth p - depth q - 1 + 1 := by omega
  have hfirst : ofNames ((names p).take (depth q)) = q := by
    rw [depth, ← List.prefix_iff_eq_take.mp hstarts, ofNames_names hq]
  rw [between, hcount, List.range'_succ, List.map_cons, ← hdepth, hfirst, between]

end RamShell.Path
