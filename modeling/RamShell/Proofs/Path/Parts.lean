import RamShell.Proofs.Path.Child
import RamShell.Proofs.Path.Resolution
/-!
# RamShell.Proofs.Path.Parts

A path as its parent and its last name. `parent` and `baseName` cut a text at its last slash,
`up` drops slashes first, `join` appends to a stem and `resolve` walks: five ways to look at the
same two parts. They fit together because a canonical path is a list of proper names
(`exists_concat`), of which all of them see the last one and the ones before it.

The main statement is `parts_fit_together`: taking a canonical path apart and joining the parts
gives it back, and so does joining and taking apart.
-/

namespace RamShell.Path

variable {p d n : String}

/-- A text is a proper name if it is not empty, has no slash, and is neither `.` nor `..`. -/
theorem proper_toList_iff : Proper n.toList ↔ n ≠ "" ∧ '/' ∉ n.toList ∧ n ≠ "." ∧ n ≠ ".." := by
  have hempty : n.toList = [] ↔ n = "" := by simp
  have hdot : n.toList = ['.'] ↔ n = "." := by simp [← String.toList_inj]
  have hdots : n.toList = ['.', '.'] ↔ n = ".." := by simp [← String.toList_inj]
  have hslash : (∀ c ∈ n.toList, isSlash c = false) ↔ '/' ∉ n.toList := by
    simp only [isSlash, beq_eq_false_iff_ne, ne_eq]
    exact ⟨fun h hmem => h _ hmem rfl, fun h c hc heq => h (heq ▸ hc)⟩
  constructor
  · intro h
    exact ⟨mt hempty.mpr h.ne_nil, hslash.mp h.slashless, mt hdot.mpr h.ne_dot,
      mt hdots.mpr h.ne_dots⟩
  · rintro ⟨hne, hfree, hne_dot, hne_dots⟩
    exact ⟨mt hempty.mp hne, mt hdot.mp hne_dot, mt hdots.mp hne_dots, hslash.mpr hfree⟩

/-! ### Apart -/

/-- The last name of a canonical path is proper. -/
theorem proper_baseName (hp : Canonical p) (hr : p ≠ root) : Proper (baseName p).toList := by
  obtain ⟨ns, n, -, hn, rfl⟩ := exists_concat hp hr
  rw [baseName_ofNames_concat ns hn.slashless, String.toList_ofList]
  exact hn

/-- A canonical path starts with its parent, and goes on after it. -/
theorem exists_parent_append (hp : Canonical p) (hr : p ≠ root) :
    ∃ rest, rest ≠ "" ∧ p = parent p ++ rest := by
  obtain ⟨ns, n, -, hn, rfl⟩ := exists_concat hp hr
  rw [parent_ofNames_concat ns hn.slashless]
  -- Behind the root there is no slash left to write before the name.
  cases ns with
  | nil =>
    refine ⟨String.ofList n, by simpa using hn.ne_nil, ?_⟩
    rw [← String.toList_inj, toList_ofNames_concat]
    simp [root]
  | cons m ms =>
    refine ⟨String.ofList ('/' :: n), by simp, ?_⟩
    rw [← String.toList_inj, toList_ofNames_concat, String.toList_append,
      toList_ofNames (List.cons_ne_nil m ms), String.toList_ofList]

/-- The parent of a canonical path is shorter, in characters and in bytes. -/
theorem parent_shorter (hp : Canonical p) (hr : p ≠ root) :
    (parent p).length < p.length ∧ (parent p).utf8ByteSize < p.utf8ByteSize := by
  obtain ⟨rest, hrest, happend⟩ := exists_parent_append hp hr
  have hchars : p.length = (parent p).length + rest.length := by
    conv_lhs => rw [happend, String.length_append]
  have hbytes : p.utf8ByteSize = (parent p).utf8ByteSize + rest.utf8ByteSize := by
    conv_lhs => rw [happend, String.utf8ByteSize_append]
  have hchars_pos : rest.length ≠ 0 := by simpa using hrest
  have hbytes_pos : rest.utf8ByteSize ≠ 0 := by simpa using hrest
  omega

/-- One step back behind a canonical path leads to its parent. -/
theorem normalize_append_dots (hp : Canonical p) : normalize (p ++ "/..") = parent p := by
  have hsplit : p ++ "/.." = p ++ "/" ++ ".." := by
    rw [String.append_assoc]
    rfl
  rw [hsplit, ← resolve_of_relative (by decide), resolve_dots hp]

/-! ### Together -/

theorem join_eq_ofNames (hn : Proper n.toList) (d : String) :
    join d n = ofNames (names d ++ [n.toList]) := by
  rw [← join_ofList hn, String.ofList_toList]

theorem parent_join (hn : Proper n.toList) (d : String) : parent (join d n) = normalize d := by
  rw [join_eq_ofNames hn, parent_ofNames_concat _ hn.slashless, normalize]

theorem baseName_join (hn : Proper n.toList) (d : String) : baseName (join d n) = n := by
  rw [join_eq_ofNames hn, baseName_ofNames_concat _ hn.slashless, String.ofList_toList]

theorem spelled_join (d n : String) : Spelled (join d n) := spelled_normalize _

/-- Parent, last name and joining fit together. A canonical path other than the root ends in a name,
which is not empty, has no slash and is neither `.` nor `..`; its parent is canonical and shorter;
joining the two gives the path back; and stepping up from it, walking on from it by `..` and
resolving `..` in it all lead to the parent. The root is where a step up from it ends. And joining
any directory with such a name gives a canonical path whose parent is the directory and whose last
name is the name. -/
theorem parts_fit_together :
    (∀ p, Spelled p → p ≠ "/" →
      (baseName p ≠ "" ∧ '/' ∉ (baseName p).toList ∧ baseName p ≠ "." ∧ baseName p ≠ "..") ∧
      Spelled (parent p) ∧
      ((parent p).length < p.length ∧ (parent p).utf8ByteSize < p.utf8ByteSize) ∧
      join (parent p) (baseName p) = p ∧
      up p = parent p ∧ parent p = normalize (p ++ "/..") ∧
      normalize (p ++ "/..") = resolve ".." p) ∧
    (up "/" = "/" ∧ normalize "/.." = "/") ∧
    ∀ d n, n ≠ "" → '/' ∉ n.toList → n ≠ "." → n ≠ ".." →
      Spelled (join d n) ∧ parent (join d n) = normalize d ∧ baseName (join d n) = n := by
  refine ⟨?_, by decide, ?_⟩
  · intro p hspelled hr
    have hp := hspelled.canonical
    have hback := normalize_append_dots hp
    exact ⟨proper_toList_iff.mp (proper_baseName hp hr),
      spelled_iff_canonical.mpr (canonical_parent hp), parent_shorter hp hr,
      join_parent_baseName hp hr, up_eq_parent hp, hback.symm, hback.trans (resolve_dots hp).symm⟩
  · intro d n hne hslash hdot hdots
    have hn := proper_toList_iff.mpr ⟨hne, hslash, hdot, hdots⟩
    exact ⟨spelled_join d n, parent_join hn d, baseName_join hn d⟩

/-- A name of three dots is a name like others, in a directory spelled with steps back, and its
path comes apart into the directory and the name again. -/
theorem three_dots_in_respelled_directory :
    Spelled "/ü/..." ∧ "/ü/..." ≠ "/" ∧
      (join (parent "/ü/...") (baseName "/ü/...") = "/ü/..." ∧ up "/ü/..." = parent "/ü/...") ∧
      ("..." ≠ "" ∧ '/' ∉ "...".toList ∧ "..." ≠ "." ∧ "..." ≠ "..") ∧
      join "ü//x/../." "..." = "/ü/..." ∧ parent (join "ü//x/../." "...") = normalize "ü//x/../." := by
  obtain ⟨hapart, -, htogether⟩ := parts_fit_together
  have hspelled : Spelled "/ü/..." := spelled_iff_canonical.mpr (by decide)
  have hr : "/ü/..." ≠ "/" := by decide
  have hname : "..." ≠ "" ∧ '/' ∉ "...".toList ∧ "..." ≠ "." ∧ "..." ≠ ".." := by decide
  obtain ⟨-, -, -, hjoin, hup, -, -⟩ := hapart _ hspelled hr
  obtain ⟨-, hparent, -⟩ :=
    htogether "ü//x/../." "..." hname.1 hname.2.1 hname.2.2.1 hname.2.2.2
  exact ⟨hspelled, hr, ⟨hjoin, hup⟩, hname, by decide, hparent⟩

end RamShell.Path
