import Mathlib.Data.List.Basic
import RamShell.Path
/-!
# RamShell.Proofs.Path.Canonical

Canonical paths as lists of names. Cutting a path into names and writing names as a path are
inverse to each other once every name is *proper*: not empty, not `.` or `..`, and free of
slashes. So a canonical path is the same thing as a list of proper names, and what the functions
on paths do to it is what they do to that list.

Main statements: `names_ofNames` (the names can be read back), `canonical_normalize`, and for a
canonical path the parent (`parent_ofNames_concat`), the step up (`up_ofNames_concat`) and the
stem that the paths below it start with (`toList_childStem_ofNames`).
-/

namespace RamShell.Path

/-! ### Proper names -/

/-- A name that a segment of a path stands for, neither skipped nor stepping back. -/
structure Proper (n : Name) : Prop where
  /-- The name is not empty. -/
  ne_nil : n ≠ []
  /-- The name does not stand for the directory itself. -/
  ne_dot : n ≠ ['.']
  /-- The name does not stand for the directory above. -/
  ne_dots : n ≠ ['.', '.']
  /-- The name is one segment. -/
  slashless : ∀ c ∈ n, isSlash c = false

theorem enter_of_proper {n : Name} (h : Proper n) (kept : List Name) :
    enter kept n = n :: kept := by
  simp [enter, h.ne_nil, h.ne_dot, h.ne_dots]

/-- A slashless segment keeps the names proper, whatever it is. -/
theorem proper_enter {kept : List Name} (hk : ∀ n ∈ kept, Proper n) {segment : Name}
    (hs : ∀ c ∈ segment, isSlash c = false) : ∀ n ∈ enter kept segment, Proper n := by
  intro n hn
  unfold enter at hn
  split at hn
  · exact hk n hn
  · next hskip =>
    obtain ⟨hnil, hdot⟩ := not_or.mp hskip
    split at hn
    · exact hk n (List.mem_of_mem_tail hn)
    · next hdots =>
      rcases List.mem_cons.mp hn with rfl | hn
      · exact ⟨hnil, hdot, hdots, hs⟩
      · exact hk n hn

theorem proper_foldl_enter {segments kept : List Name} (hk : ∀ n ∈ kept, Proper n)
    (hs : ∀ s ∈ segments, ∀ c ∈ s, isSlash c = false) :
    ∀ n ∈ segments.foldl enter kept, Proper n := by
  induction segments generalizing kept with
  | nil => exact hk
  | cons s segments ih =>
    exact ih (proper_enter hk (hs s (List.mem_cons_self ..)))
      fun t ht => hs t (List.mem_cons_of_mem _ ht)

/-- The names of any path are proper. -/
theorem proper_names (path : String) : ∀ n ∈ names path, Proper n := by
  intro n hn
  have hnone : ∀ m ∈ ([] : List Name), Proper m := by simp
  refine proper_foldl_enter hnone ?_ n (List.mem_reverse.mp hn)
  exact fun s hs c hc => Text.not_sep_of_mem_pieces hs hc

theorem foldl_enter_of_proper {ns : List Name} (h : ∀ n ∈ ns, Proper n) (kept : List Name) :
    ns.foldl enter kept = ns.reverse ++ kept := by
  induction ns generalizing kept with
  | nil => rfl
  | cons n ns ih =>
    rw [List.foldl_cons, enter_of_proper (h n (List.mem_cons_self ..)),
      ih fun m hm => h m (List.mem_cons_of_mem _ hm)]
    simp

/-! ### Reading names back -/

/-- Cutting names that follow a slash each gives them back, after the empty piece in front. -/
theorem pieces_flatMap_slash {ns : List Name} (h : ∀ n ∈ ns, ∀ c ∈ n, isSlash c = false) :
    Text.pieces isSlash (ns.flatMap ('/' :: ·)) = [] :: ns := by
  induction ns with
  | nil => rfl
  | cons n ns ih =>
    have hn : Text.pieces isSlash n = [n] := Text.pieces_of_free (h n (List.mem_cons_self ..))
    have ih := ih fun m hm => h m (List.mem_cons_of_mem _ hm)
    rw [List.flatMap_cons, List.cons_append, Text.pieces_cons_of_sep rfl]
    cases ns with
    | nil => simp [hn]
    | cons m ms =>
      rw [List.flatMap_cons, List.cons_append] at ih ⊢
      rw [Text.pieces_cons_of_sep rfl, List.cons.injEq] at ih
      rw [Text.pieces_append_sep rfl, hn, ih.2]
      rfl

theorem toList_ofNames {ns : List Name} (h : ns ≠ []) :
    (ofNames ns).toList = ns.flatMap ('/' :: ·) := by
  cases ns with
  | nil => exact absurd rfl h
  | cons n ns => exact toList_ofNames_cons n ns

/-- The names of a path that was written from proper names. -/
theorem names_ofNames {ns : List Name} (h : ∀ n ∈ ns, Proper n) : names (ofNames ns) = ns := by
  by_cases hns : ns = []
  · subst hns
    rfl
  · have hp := pieces_flatMap_slash fun n hn => (h n hn).slashless
    rw [names, toList_ofNames hns, hp, List.foldl_cons, enter_nil, foldl_enter_of_proper h]
    simp

theorem ofNames_injective {ns ms : List Name} (hn : ∀ n ∈ ns, Proper n) (hm : ∀ m ∈ ms, Proper m)
    (h : ofNames ns = ofNames ms) : ns = ms := by
  rw [← names_ofNames hn, h, names_ofNames hm]

/-! ### Canonical paths -/

/-- A path that is its own canonical form. -/
def Canonical (path : String) : Prop := normalize path = path

instance (path : String) : Decidable (Canonical path) :=
  inferInstanceAs (Decidable (normalize path = path))

theorem canonical_ofNames {ns : List Name} (h : ∀ n ∈ ns, Proper n) : Canonical (ofNames ns) := by
  rw [Canonical, normalize, names_ofNames h]

theorem canonical_root : Canonical root := rfl

theorem ofNames_names {path : String} (h : Canonical path) : ofNames (names path) = path := h

@[simp] theorem names_normalize (path : String) : names (normalize path) = names path :=
  names_ofNames (proper_names path)

/-- Bringing a path to canonical form twice changes nothing more. -/
theorem canonical_normalize (path : String) : Canonical (normalize path) :=
  canonical_ofNames (proper_names path)

/-- A canonical path other than the root ends in a proper name. -/
theorem exists_concat {path : String} (h : Canonical path) (hr : path ≠ root) :
    ∃ ns n, (∀ m ∈ ns, Proper m) ∧ Proper n ∧ path = ofNames (ns ++ [n]) := by
  have hp := proper_names path
  -- The root is the only canonical path without names.
  have hne : names path ≠ [] := by
    intro h0
    rw [← ofNames_names h, h0] at hr
    exact hr rfl
  have hlast := List.dropLast_concat_getLast hne
  rw [← hlast] at hp
  refine ⟨(names path).dropLast, (names path).getLast hne, ?_, ?_, ?_⟩
  · exact fun m hm => hp m (List.mem_append_left _ hm)
  · exact hp _ (List.mem_append_right _ (List.mem_singleton_self _))
  · rw [hlast, ofNames_names h]

theorem ofNames_ne_empty (ns : List Name) : ofNames ns ≠ "" := by
  intro h
  have hlist : (ofNames ns).toList = [] := by rw [h]; rfl
  cases ns with
  | nil => exact absurd hlist (by decide)
  | cons n ns =>
    rw [toList_ofNames_cons] at hlist
    exact absurd hlist (List.cons_ne_nil _ _)

theorem normalize_ne_empty (path : String) : normalize path ≠ "" := ofNames_ne_empty _

theorem Canonical.ne_empty {path : String} (h : Canonical path) : path ≠ "" := by
  rw [← h]
  exact normalize_ne_empty path

theorem canonical_resolve (path cwd : String) : Canonical (resolve path cwd) := by
  unfold resolve
  split <;> exact canonical_normalize _

/-! ### Parents -/

theorem toList_ofNames_concat (ns : List Name) (n : Name) :
    (ofNames (ns ++ [n])).toList = ns.flatMap ('/' :: ·) ++ '/' :: n := by
  rw [toList_ofNames (by simp)]
  simp

/-- What is left of a path once its last name is cut off. -/
theorem dropWhile_reverse_concat {n : Name} (hn : ∀ c ∈ n, isSlash c = false)
    (cs : List Char) :
    (cs ++ '/' :: n).reverse.dropWhile (!isSlash ·) = '/' :: cs.reverse := by
  rw [List.reverse_append, List.reverse_cons, List.append_assoc, List.singleton_append,
    List.dropWhile_append_of_pos fun c hc => by simp [hn c (List.mem_reverse.mp hc)]]
  exact List.dropWhile_cons_of_neg (by decide)

/-- The parent of a path is the path without its last name. -/
theorem parent_ofNames_concat (ns : List Name) {n : Name} (hn : ∀ c ∈ n, isSlash c = false) :
    parent (ofNames (ns ++ [n])) = ofNames ns := by
  rw [parent, toList_ofNames_concat, dropWhile_reverse_concat hn]
  cases ns with
  | nil => rfl
  | cons m ms =>
    -- With a name in front of the last one, the slash found is not the leading one.
    have hne : ((m :: ms).flatMap ('/' :: ·)).reverse ≠ [] := by simp
    obtain ⟨d, ds, hd⟩ := List.exists_cons_of_ne_nil hne
    rw [hd]
    show String.ofList (d :: ds).reverse = _
    rw [← hd, List.reverse_reverse]
    rfl

@[simp] theorem parent_root : parent root = root := by decide

theorem canonical_parent {path : String} (h : Canonical path) : Canonical (parent path) := by
  by_cases hr : path = root
  · rw [hr, parent_root]
    exact canonical_root
  · obtain ⟨ns, n, hns, hn, rfl⟩ := exists_concat h hr
    rw [parent_ofNames_concat ns hn.slashless]
    exact canonical_ofNames hns

/-- One step up from a canonical path leads to its parent, and stays at the root. -/
theorem up_eq_parent {path : String} (h : Canonical path) : up path = parent path := by
  by_cases hr : path = root
  · subst hr
    decide
  · obtain ⟨ns, n, hns, hn, rfl⟩ := exists_concat h hr
    obtain ⟨d, ds, hd⟩ := List.exists_cons_of_ne_nil (mt List.reverse_eq_nil_iff.mp hn.ne_nil)
    have hds : isSlash d = false :=
      hn.slashless d (List.mem_reverse.mp (hd ▸ List.mem_cons_self ..))
    -- The path ends in the last character of a proper name, so there is no slash to drop.
    have hkeep : Text.dropTrailing isSlash (ofNames (ns ++ [n])).toList =
        (ofNames (ns ++ [n])).toList := by
      rw [Text.dropTrailing, toList_ofNames_concat, List.reverse_append, List.reverse_cons, hd,
        List.cons_append, List.cons_append, List.dropWhile_cons_of_neg (by simp [hds]),
        ← List.cons_append, ← List.cons_append, ← hd, ← List.reverse_cons,
        ← List.reverse_append, List.reverse_reverse]
    have hne : (ofNames (ns ++ [n])).toList ≠ [] := by
      rw [toList_ofNames_concat]
      simp
    -- What is written from names starts with a slash.
    have hdot : ofNames ns ≠ "." := by
      intro h0
      have := congrArg String.toList h0
      cases ns with
      | nil => exact absurd this (by decide)
      | cons m ms =>
        rw [toList_ofNames_cons] at this
        exact absurd (List.cons.inj this).1 (by decide)
    unfold up
    rw [hkeep]
    split
    · next h0 => exact absurd h0 hne
    · rw [String.ofList_toList, parent_ofNames_concat ns hn.slashless, if_neg hdot]

/-! ### Below a directory -/

/-- Every path below a directory starts with the directory's names, each after a slash, and one
more slash. -/
theorem toList_childStem_ofNames {ns : List Name} (h : ∀ n ∈ ns, Proper n) :
    (childStem (ofNames ns)).toList = ns.flatMap ('/' :: ·) ++ ['/'] := by
  rw [childStem, names_ofNames h]
  cases ns with
  | nil => rfl
  | cons n ns => simp [toList_ofNames]

/-- A path starts with the stem of its parent, and its last name is what is left. -/
theorem below?_parent {ns : List Name} {n : Name} (hns : ∀ m ∈ ns, Proper m) :
    below? (childStem (ofNames ns)) (ofNames (ns ++ [n])) = some n := by
  rw [below?, List.isPrefixOf?_eq_some_iff_append_eq, toList_childStem_ofNames hns,
    toList_ofNames_concat, List.append_assoc]
  rfl

/-- The stem of a directory depends on where the directory is, not on its spelling. -/
@[simp] theorem childStem_normalize (dir : String) : childStem (normalize dir) = childStem dir := by
  rw [childStem, names_normalize, childStem]

/-- The names of a path below a directory are those of the directory and the pieces of what follows
its stem. -/
theorem names_eq_of_below? {dir path : String} {rest : List Char} (hpath : Canonical path)
    (h : below? (childStem dir) path = some rest) (hrest : rest ≠ []) :
    names path = names dir ++ Text.pieces isSlash rest := by
  rw [below?, List.isPrefixOf?_eq_some_iff_append_eq, ← childStem_normalize, normalize,
    toList_childStem_ofNames (proper_names dir), List.append_assoc, List.singleton_append] at h
  have hne : names path ≠ [] := by
    intro hnil
    rw [← ofNames_names hpath, hnil] at h
    have hlength := congrArg List.length h
    have hone : (ofNames []).toList.length = 1 := by decide
    have hpos := List.length_pos_of_ne_nil hrest
    rw [hone, List.length_append, List.length_cons] at hlength
    omega
  rw [← ofNames_names hpath, toList_ofNames hne] at h
  -- Cutting both sides at their slashes gives the names of the directory in front.
  have hcut := congrArg (Text.pieces isSlash) h
  rw [Text.pieces_append_sep rfl,
    pieces_flatMap_slash fun n hn => (proper_names dir n hn).slashless,
    pieces_flatMap_slash fun n hn => (proper_names path n hn).slashless] at hcut
  exact (List.cons.inj hcut).2.symm

/-- A path below a directory has all names of the directory and some more. -/
theorem names_of_below? {dir path : String} {rest : List Char} (hpath : Canonical path)
    (h : below? (childStem dir) path = some rest) (hrest : rest ≠ []) :
    ∃ ks, ks ≠ [] ∧ names path = names dir ++ ks :=
  ⟨_, Text.pieces_ne_nil isSlash rest, names_eq_of_below? hpath h hrest⟩

end RamShell.Path
