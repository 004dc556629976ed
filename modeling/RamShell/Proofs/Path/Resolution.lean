import RamShell.Proofs.Path.Canonical
/-!
# RamShell.Proofs.Path.Resolution

The algebra of paths. A path says how to walk: from the root, name by name, and one step back for
each `..`. Two paths joined by a slash walk on from where the first one ends, so nothing but the
place where it ends counts for what comes after it (`names_append_slash_congr`). All laws of
resolving follow from this one.

`Spelled` says what a canonical path looks like, without a word on how it is computed, and
`spelled_iff_canonical` that exactly the paths of this look are left alone by `normalize`. The main
statement is `resolution_laws`: resolving in two steps is resolving at once.
-/

namespace RamShell.Path

/-! ### The look of canonical paths -/

/-- A path with nothing left to be done in it: the root, or a slash in front of each of some names
that are not empty, not `.` or `..`, and free of slashes. -/
inductive Spelled : String → Prop
  /-- The root directory. -/
  | root : Spelled "/"
  /-- Names, each after a slash. -/
  | below {ns : List Name} (hne : ns ≠ []) (hns : ∀ n ∈ ns, Proper n) :
      Spelled (String.ofList (ns.flatMap ('/' :: ·)))

variable {p q a a' cwd cwd' : String}

theorem ofNames_of_ne_nil {ns : List Name} (h : ns ≠ []) :
    ofNames ns = String.ofList (ns.flatMap ('/' :: ·)) := by
  rw [← toList_ofNames h, String.ofList_toList]

theorem spelled_ofNames {ns : List Name} (h : ∀ n ∈ ns, Proper n) : Spelled (ofNames ns) := by
  by_cases hnil : ns = []
  · subst hnil
    exact .root
  · rw [ofNames_of_ne_nil hnil]
    exact .below hnil h

theorem spelled_normalize (p : String) : Spelled (normalize p) := spelled_ofNames (proper_names p)

theorem Spelled.canonical (h : Spelled p) : Canonical p := by
  cases h with
  | root => exact canonical_root
  | below hne hns =>
    rw [← ofNames_of_ne_nil hne]
    exact canonical_ofNames hns

/-- The paths of this look are exactly those that are their own canonical form. -/
theorem spelled_iff_canonical : Spelled p ↔ Canonical p := by
  constructor
  · exact Spelled.canonical
  · intro h
    rw [← h]
    exact spelled_normalize p

theorem spelled_resolve (p cwd : String) : Spelled (resolve p cwd) :=
  spelled_iff_canonical.mpr (canonical_resolve p cwd)

/-! ### Walking on -/

/-- Two paths have one canonical form if they lead along the same names. -/
theorem normalize_congr (h : names a = names a') : normalize a = normalize a' := by
  rw [normalize, normalize, h]

theorem names_congr (h : normalize a = normalize a') : names a = names a' := by
  rw [← names_normalize a, h, names_normalize]

/-- What comes after a slash starts where the path before it ends, whichever way that path took. -/
theorem names_append_slash_congr (h : names a = names a') (b : String) :
    names (a ++ "/" ++ b) = names (a' ++ "/" ++ b) := by
  rw [names_append_slash, names_append_slash, h]

theorem normalize_append_slash_congr (h : normalize a = normalize a') (b : String) :
    normalize (a ++ "/" ++ b) = normalize (a' ++ "/" ++ b) :=
  normalize_congr (names_append_slash_congr (names_congr h) b)

/-- The front of a path may be brought to canonical form first. -/
theorem normalize_normalize_append_slash (a b : String) :
    normalize (normalize a ++ "/" ++ b) = normalize (a ++ "/" ++ b) :=
  normalize_append_slash_congr (canonical_normalize a) b

/-! ### Resolving -/

/-- A path that starts at the root does not see the working directory. -/
theorem resolve_of_rooted (h : p.toList.head? = some '/') : resolve p cwd = normalize p :=
  if_pos h

/-- Any other path walks on from the working directory. -/
theorem resolve_of_relative (h : p.toList.head? ≠ some '/') :
    resolve p cwd = normalize (cwd ++ "/" ++ p) := if_neg h

/-- The working directory counts only by where it is. -/
theorem resolve_congr (p : String) (h : normalize cwd = normalize cwd') :
    resolve p cwd = resolve p cwd' := by
  by_cases hp : p.toList.head? = some '/'
  · rw [resolve_of_rooted hp, resolve_of_rooted hp]
  · rw [resolve_of_relative hp, resolve_of_relative hp]
    exact normalize_append_slash_congr h p

theorem head?_append_slash (hp : p ≠ "") (q : String) :
    (p ++ "/" ++ q).toList.head? = p.toList.head? := by
  have hne : p.toList ≠ [] := by simpa using hp
  obtain ⟨c, cs, hcs⟩ := List.exists_cons_of_ne_nil hne
  simp [hcs]

/-- Resolving a path that is not empty, and then another one from there, is resolving both at
once. -/
theorem resolve_resolve (hp : p ≠ "") (hq : q.toList.head? ≠ some '/') (cwd : String) :
    resolve q (resolve p cwd) = resolve (p ++ "/" ++ q) cwd := by
  rw [resolve_of_relative hq]
  by_cases hrooted : p.toList.head? = some '/'
  · rw [resolve_of_rooted hrooted, resolve_of_rooted (by rw [head?_append_slash hp, hrooted])]
    exact normalize_normalize_append_slash p q
  · have hboth : (p ++ "/" ++ q).toList.head? ≠ some '/' := by
      rw [head?_append_slash hp]
      exact hrooted
    rw [resolve_of_relative hrooted, resolve_of_relative hboth]
    have hassoc : cwd ++ "/" ++ (p ++ "/" ++ q) = cwd ++ "/" ++ p ++ "/" ++ q := by
      simp only [String.append_assoc]
    rw [hassoc]
    exact normalize_normalize_append_slash (cwd ++ "/" ++ p) q

/-- Resolving `.` from a canonical directory stays there. -/
theorem resolve_dot (h : Canonical cwd) : resolve "." cwd = cwd := by
  have hpieces : Text.pieces isSlash ".".toList = [['.']] := by decide
  have hnames : names (cwd ++ "/" ++ ".") = names cwd := by
    rw [names_append_slash, hpieces, List.foldl_cons, List.foldl_nil, enter_dot,
      List.reverse_reverse]
  rw [resolve_of_relative (by decide), normalize, hnames]
  exact ofNames_names h

/-- Resolving `..` from a canonical directory leads to its parent. -/
theorem resolve_dots (h : Canonical cwd) : resolve ".." cwd = parent cwd := by
  have hpieces : Text.pieces isSlash "..".toList = [['.', '.']] := by decide
  have hnames : names (cwd ++ "/" ++ "..") = (names cwd).dropLast := by
    rw [names_append_slash, hpieces, List.foldl_cons, List.foldl_nil, enter_dots,
      List.tail_reverse, List.reverse_reverse]
  rw [resolve_of_relative (by decide), normalize, hnames]
  by_cases hroot : cwd = root
  · subst hroot
    decide
  · obtain ⟨ns, n, hns, hn, rfl⟩ := exists_concat h hroot
    have hproper : ∀ m ∈ ns ++ [n], Proper m :=
      List.forall_mem_append.mpr ⟨hns, List.forall_mem_singleton.mpr hn⟩
    rw [names_ofNames hproper, List.dropLast_concat, parent_ofNames_concat ns hn.slashless]

/-- The laws of paths. Canonical forms are the root or names after slashes, exactly the paths of
this look are their own canonical form, and so bringing a path to it twice changes nothing more.
The front of a path may be brought to it first. What a path resolves to is canonical, the working
directory counts only by its canonical form, and resolving in two steps is resolving at once. -/
theorem resolution_laws :
    (∀ p, Spelled (normalize p)) ∧
    (∀ p, normalize p = p ↔ Spelled p) ∧
    (∀ p, normalize (normalize p) = normalize p) ∧
    (∀ a b, normalize (normalize a ++ "/" ++ b) = normalize (a ++ "/" ++ b)) ∧
    (∀ p cwd, Spelled (resolve p cwd)) ∧
    (∀ p cwd cwd', normalize cwd = normalize cwd' → resolve p cwd = resolve p cwd') ∧
    ∀ cwd p q, p ≠ "" → q.toList.head? ≠ some '/' →
      resolve q (resolve p cwd) = resolve (p ++ "/" ++ q) cwd := by
  refine ⟨spelled_normalize, ?_, canonical_normalize, normalize_normalize_append_slash,
    spelled_resolve, ?_, ?_⟩
  · exact fun p => spelled_iff_canonical.symm
  · exact fun p cwd cwd' h => resolve_congr p h
  · exact fun cwd p q hp hq => resolve_resolve hp hq cwd

/-- Steps back that leave the first path and clamp at the root are taken the same way in two
steps. -/
theorem resolve_steps_past_root :
    "a//b/" ≠ "" ∧ "../../../../c".toList.head? ≠ some '/' ∧
      resolve "../../../../c" (resolve "a//b/" "/x/./") = resolve "a//b//../../../../c" "/x/./" ∧
      resolve "../../../../c" (resolve "a//b/" "/x/./") = "/c" := by
  have hp : "a//b/" ≠ "" := by decide
  have hq : "../../../../c".toList.head? ≠ some '/' := by decide
  obtain ⟨-, -, -, -, -, -, htwo⟩ := resolution_laws
  exact ⟨hp, hq, htwo _ _ _ hp hq, by decide⟩

end RamShell.Path
