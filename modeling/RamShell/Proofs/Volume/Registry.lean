import Mathlib.Data.Finmap
import RamShell.Proofs.Log
import RamShell.Proofs.Volume.Removal
/-!
# RamShell.Proofs.Volume.Registry

The entry table against a finite map. The table finds an entry by the first match in a list, and a
deletion moves another entry about; a registry is a map from paths to entries and knows of no list.
Both are driven by the same operations, and `Mirrors` is what they have in common: the table is
within its bounds, its paths are distinct, and each path leads to the same entry in both. Distinct
paths are what carries the comparison, since the first match is then the only one.

`mirrors_apply` is the step. The main statement is `table_is_bounded_map`.
-/

namespace RamShell.Volume

/-! ### Operations -/

/-- The entry with another size and other permissions, which may depend on the entry. -/
def Entry.revised (size : Entry → Nat) (permissions : Entry → Permissions) (e : Entry) : Entry :=
  { e with size := size e, permissions := permissions e }

@[simp] theorem Entry.revised_path (size : Entry → Nat) (permissions : Entry → Permissions)
    (e : Entry) : (e.revised size permissions).path = e.path := rfl

/-- An operation on a table. -/
inductive Table.Operation
  /-- Make an empty entry. -/
  | create (path : String) (isDirectory : Bool) (offset tick : Nat)
  /-- Find an entry, and change its size and permissions. -/
  | revise (path : String) (size : Entry → Nat) (permissions : Entry → Permissions)
  /-- Remove an entry. -/
  | delete (path : String)
  /-- Remove every entry. -/
  | clear

/-- What an operation answers: why it failed, or the entry that it made, changed or removed, if there
is one. -/
abbrev Table.Answer := Except Error (Option Entry)

/-- Carries out an operation. -/
def Table.apply (t : Table) : Operation → Answer × Table
  | .create path isDirectory offset tick =>
    let (answer, t) := t.create path isDirectory offset tick
    (answer.map some, t)
  | .revise path size permissions =>
    let t' := t.update path (.revised size permissions)
    (.ok (t'.find? path), t')
  | .delete path =>
    let (answer, t) := t.delete path
    (answer.map some, t)
  | .clear => (.ok none, t.clear)

/-- What is checked before an entry is added, in order. -/
def Table.createChecks (t : Table) (path : String) : List (Bool × Error) :=
  [(path = "", .invalidPath),
    (t.maxPathLength < path.utf8ByteSize, .pathTooLong),
    (∃ e ∈ t.entries, e.path = path, .duplicateExists),
    (t.capacity ≤ t.entries.length, .tableFull)]

/-- What is checked before an entry is removed, in order. -/
def Table.deleteChecks (t : Table) (path : String) : List (Bool × Error) :=
  [(path = "/", .cannotDeleteRoot), (∀ e ∈ t.entries, e.path ≠ path, .notFound)]

namespace Table

variable {t : Table} {path c : String}

/-- Adding an entry is the row of checks. If one of them strikes, the table stays as it is, and
otherwise it has an entry more at its end. -/
theorem create_eq (t : Table) (path : String) (isDirectory : Bool) (offset tick : Nat) :
    t.create path isDirectory offset tick =
      match verdict (t.createChecks path) with
      | .error err => (.error err, t)
      | .ok () =>
        (.ok (.empty path isDirectory offset tick), t.insert (.empty path isDirectory offset tick)) := by
  rw [createChecks, ← t.create_verdict path isDirectory offset tick]
  rcases t.create_cases path isDirectory offset tick with
    ⟨err, hrefused⟩ | ⟨hpath, hshort, hnew, hslot⟩
  · rw [hrefused]
    rfl
  · rw [create_eq_insert hpath hshort hnew hslot]
    rfl

/-- Nothing strikes before an entry is added if its path is new and admitted and a slot is free. -/
theorem verdict_createChecks_eq_ok_iff :
    verdict (t.createChecks path) = .ok () ↔
      path ≠ "" ∧ path.utf8ByteSize ≤ t.maxPathLength ∧ t.find? path = none ∧
        t.size < t.capacity := by
  rw [verdict_eq_ok_iff, find?_eq_none_iff]
  simp [createChecks, size]

/-- Removing an entry fails as the first check says that strikes, and otherwise takes out the entry
that has the path. -/
theorem delete_cases (t : Table) (path : String) :
    (∃ err, t.delete path = (.error err, t) ∧ verdict (t.deleteChecks path) = .error err) ∨
      ∃ e, t.find? path = some e ∧ t.delete path = (.ok e, t.without path) ∧
        verdict (t.deleteChecks path) = .ok () := by
  by_cases hroot : path = Path.root
  · exact Or.inl ⟨.cannotDeleteRoot, if_pos hroot, verdict_of_strikes hroot⟩
  have hpasses : verdict (t.deleteChecks path) =
      verdict [(decide (∀ e ∈ t.entries, e.path ≠ path), .notFound)] := verdict_of_passes hroot
  cases hfound : t.find? path with
  | none =>
    refine Or.inl ⟨.notFound, ?_, hpasses.trans (verdict_of_strikes (find?_eq_none_iff.mp hfound))⟩
    rw [delete, if_neg hroot, hfound]
  | some e =>
    have hthere : ¬ ∀ e ∈ t.entries, e.path ≠ path := by
      rw [← find?_eq_none_iff, hfound]
      simp
    exact Or.inr ⟨e, rfl, delete_eq_ok hroot hfound, hpasses.trans (verdict_of_passes hthere)⟩

theorem update_of_missing (hnone : t.find? c = none) (f : Entry → Entry) : t.update c f = t := by
  have hfree : ∀ e ∈ t.entries, (e.path == c) = false := by
    simpa using find?_eq_none_iff.mp hnone
  have hsame : modifyFirst (fun e => e.path == c) f (t.entries ++ []) = t.entries ++ [] :=
    modifyFirst_append hfree f
  rw [List.append_nil] at hsame
  rw [update, hsame]

/-- An operation that fails leaves the table as it is. -/
theorem apply_of_error {op : Operation} {err : Error} (h : (t.apply op).1 = .error err) :
    (t.apply op).2 = t := by
  cases op with
  | create path isDirectory offset tick =>
    simp only [apply] at h ⊢
    rw [create_eq] at h ⊢
    cases hverdict : verdict (t.createChecks path) with
    | error _ => rfl
    | ok _ =>
      rw [hverdict] at h
      exact absurd h nofun
  | delete path =>
    simp only [apply] at h ⊢
    rcases t.delete_cases path with ⟨_, hdelete, -⟩ | ⟨e, -, hdelete, -⟩
    · rw [hdelete]
    · rw [hdelete] at h
      exact absurd h nofun
  | revise path size permissions => exact absurd h (by simp [apply])
  | clear => exact absurd h (by simp [apply])

end Table

/-! ### The map -/

/-- A finite map from paths to entries. -/
abbrev Registry := Finmap fun _ : String => Entry

namespace Registry

open Table (Operation Answer)

/-- The checks of a table of at most `capacity` paths, each of at most `maxPathLength` bytes, before
an entry is added. -/
def createChecks (m : Registry) (capacity maxPathLength : Nat) (path : String) :
    List (Bool × Error) :=
  [(path = "", .invalidPath),
    (maxPathLength < path.utf8ByteSize, .pathTooLong),
    (path ∈ m, .duplicateExists),
    (capacity ≤ m.keys.card, .tableFull)]

/-- The checks of a table before an entry is removed. -/
def deleteChecks (m : Registry) (path : String) : List (Bool × Error) :=
  [(path = "/", .cannotDeleteRoot), (path ∉ m, .notFound)]

/-- Carries out an operation under the bounds of a table. -/
def apply (capacity maxPathLength : Nat) (m : Registry) : Operation → Answer × Registry
  | .create path isDirectory offset tick =>
    match verdict (m.createChecks capacity maxPathLength path) with
    | .error err => (.error err, m)
    | .ok () =>
      let e := Entry.empty path isDirectory offset tick
      (.ok (some e), m.insert path e)
  | .revise path size permissions =>
    match m.lookup path with
    | none => (.ok none, m)
    | some e =>
      (.ok (some (e.revised size permissions)), m.insert path (e.revised size permissions))
  | .delete path =>
    match verdict (m.deleteChecks path) with
    | .error err => (.error err, m)
    | .ok () => (.ok (m.lookup path), m.erase path)
  | .clear => (.ok none, ∅)

/-- The kind of what a path names, as shown to users. -/
def kindText (m : Registry) (path : String) : String :=
  match m.lookup path with
  | none => "unknown"
  | some e => if e.isDirectory then "directory" else "file"

/-- The permissions of what a path names, as shown to users. -/
def permissionText (m : Registry) (path : String) : String :=
  match m.lookup path with
  | none => "----------"
  | some e => e.permissionText

end Registry

/-! ### What table and map have in common -/

/-- A table within its bounds that holds what a map holds. -/
structure Mirrors (capacity maxPathLength : Nat) (t : Table) (m : Registry) : Prop where
  /-- The greatest number of entries is the one given. -/
  capacity_eq : t.capacity = capacity
  /-- The greatest length of a path is the one given. -/
  maxPathLength_eq : t.maxPathLength = maxPathLength
  /-- No path occurs twice. -/
  distinct : t.Distinct
  /-- Every path is a text of admitted length. -/
  admitted : ∀ e ∈ t.entries, e.path ≠ "" ∧ e.path.utf8ByteSize ≤ maxPathLength
  /-- There are no more entries than slots. -/
  size_le : t.size ≤ capacity
  /-- A path leads to the same entry in both. -/
  find?_eq : ∀ q, t.find? q = m.lookup q

namespace Mirrors

variable {capacity maxPathLength : Nat} {t : Table} {m : Registry} {c path : String} {e : Entry}

theorem empty (capacity maxPathLength : Nat) :
    Mirrors capacity maxPathLength (.empty capacity maxPathLength) ∅ where
  capacity_eq := rfl
  maxPathLength_eq := rfl
  distinct := List.nodup_nil
  admitted := by simp [Table.empty]
  size_le := Nat.zero_le _
  find?_eq q := by rw [Table.find?_empty, Finmap.lookup_empty]

/-- The paths of the table are the keys of the map. -/
theorem mem_iff (h : Mirrors capacity maxPathLength t m) :
    c ∈ m ↔ ∃ e ∈ t.entries, e.path = c := by
  rw [Finmap.mem_iff, ← h.find?_eq]
  exact exists_congr fun e => Table.find?_eq_some_iff h.distinct

/-- There are as many entries as keys, because no path occurs twice. -/
theorem card_eq (h : Mirrors capacity maxPathLength t m) : m.keys.card = t.entries.length := by
  have hkeys : m.keys = (t.entries.map Entry.path).toFinset := by
    ext c
    rw [Finmap.mem_keys, h.mem_iff, List.mem_toFinset, List.mem_map]
  rw [hkeys, List.toFinset_card_of_nodup h.distinct, List.length_map]

/-- The map makes the same checks as the table before an entry is added. -/
theorem createChecks_eq (h : Mirrors capacity maxPathLength t m) (path : String) :
    m.createChecks capacity maxPathLength path = t.createChecks path := by
  simp only [Registry.createChecks, Table.createChecks, h.card_eq, h.capacity_eq,
    h.maxPathLength_eq, h.mem_iff]

theorem deleteChecks_eq (h : Mirrors capacity maxPathLength t m) (path : String) :
    m.deleteChecks path = t.deleteChecks path := by
  simp only [Registry.deleteChecks, Table.deleteChecks, h.mem_iff, not_exists, not_and, ne_eq]

/-! ### Adding, changing, removing -/

theorem insert (h : Mirrors capacity maxPathLength t m) (hnew : t.find? e.path = none)
    (hpath : e.path ≠ "") (hshort : e.path.utf8ByteSize ≤ maxPathLength) (hslot : t.size < capacity) :
    Mirrors capacity maxPathLength (t.insert e) (m.insert e.path e) where
  capacity_eq := h.capacity_eq
  maxPathLength_eq := h.maxPathLength_eq
  distinct := Table.distinct_insert h.distinct hnew
  admitted := by
    intro d hd
    rcases Table.mem_insert.mp hd with hd | rfl
    · exact h.admitted d hd
    · exact ⟨hpath, hshort⟩
  size_le := by
    show (t.entries ++ [e]).length ≤ capacity
    rw [List.length_append, List.length_singleton]
    exact hslot
  find?_eq q := by
    rw [Table.find?_insert hnew]
    by_cases hq : q = e.path
    · rw [if_pos hq, hq, Finmap.lookup_insert]
    · rw [if_neg hq, Finmap.lookup_insert_of_ne m hq, h.find?_eq]

theorem update (h : Mirrors capacity maxPathLength t m) (hfound : t.find? c = some e)
    {f : Entry → Entry} (hf : ∀ e, (f e).path = e.path) :
    Mirrors capacity maxPathLength (t.update c f) (m.insert c (f e)) where
  capacity_eq := h.capacity_eq
  maxPathLength_eq := h.maxPathLength_eq
  distinct := Table.distinct_update h.distinct hf
  admitted := by
    intro d hd
    rcases (Table.mem_update h.distinct hf hfound).mp hd with rfl | ⟨hd, -⟩
    · rw [hf]
      exact h.admitted e (Table.mem_of_find? hfound)
    · exact h.admitted d hd
  size_le := by
    rw [Table.size, Table.length_update]
    exact h.size_le
  find?_eq q := by
    rw [Table.find?_update hf]
    by_cases hq : q = c
    · rw [if_pos hq, hq, hfound, Finmap.lookup_insert, Option.map_some]
    · rw [if_neg hq, Finmap.lookup_insert_of_ne m hq, h.find?_eq]

theorem without (h : Mirrors capacity maxPathLength t m) (hfound : t.find? c = some e) :
    Mirrors capacity maxPathLength (t.without c) (m.erase c) where
  capacity_eq := h.capacity_eq
  maxPathLength_eq := h.maxPathLength_eq
  distinct := (Table.nodup_cons_without h.distinct hfound).2
  admitted := fun d hd => h.admitted d ((Table.mem_without h.distinct hfound).mp hd).1
  size_le := by
    have hlength := Table.length_without hfound
    have hsize := h.size_le
    rw [Table.size] at hsize ⊢
    omega
  find?_eq q := by
    rw [Table.find?_without h.distinct hfound]
    by_cases hq : q = c
    · rw [if_pos hq, hq, Finmap.lookup_erase]
    · rw [if_neg hq, Finmap.lookup_erase_ne hq, h.find?_eq]

/-- Every operation is answered alike by table and map, and leaves what they have in common. -/
theorem apply (h : Mirrors capacity maxPathLength t m) (op : Table.Operation) :
    (t.apply op).1 = (m.apply capacity maxPathLength op).1 ∧
      Mirrors capacity maxPathLength (t.apply op).2 (m.apply capacity maxPathLength op).2 := by
  cases op with
  | create path isDirectory offset tick =>
    simp only [Table.apply, Registry.apply, Table.create_eq, h.createChecks_eq]
    cases hverdict : verdict (t.createChecks path) with
    | error err => exact ⟨rfl, h⟩
    | ok _ =>
      obtain ⟨hpath, hshort, hnew, hslot⟩ := Table.verdict_createChecks_eq_ok_iff.mp hverdict
      rw [h.maxPathLength_eq] at hshort
      rw [h.capacity_eq] at hslot
      have hinsert := h.insert (e := .empty path isDirectory offset tick) hnew hpath hshort hslot
      exact ⟨rfl, hinsert⟩
  | revise path size permissions =>
    simp only [Table.apply, Registry.apply, ← h.find?_eq]
    cases hfound : t.find? path with
    | none =>
      rw [Table.update_of_missing hfound, hfound]
      exact ⟨rfl, h⟩
    | some e =>
      have hpath := Entry.revised_path size permissions
      rw [Table.find?_update hpath, if_pos rfl, hfound]
      exact ⟨rfl, h.update hfound hpath⟩
  | delete path =>
    simp only [Table.apply, Registry.apply, ← h.find?_eq, h.deleteChecks_eq]
    rcases t.delete_cases path with ⟨err, hdelete, hverdict⟩ | ⟨e, hfound, hdelete, hverdict⟩
    · rw [hdelete, hverdict]
      exact ⟨rfl, h⟩
    · rw [hdelete, hverdict, hfound]
      exact ⟨rfl, h.without hfound⟩
  | clear =>
    refine ⟨rfl, h.capacity_eq, h.maxPathLength_eq, List.nodup_nil, ?_, Nat.zero_le _, ?_⟩
    · exact fun e he => absurd he List.not_mem_nil
    intro q
    rw [Registry.apply, Finmap.lookup_empty]
    rfl

end Mirrors

/-! ### Every run -/

/-- A table and a map that are driven by the same operations, from nothing, answer alike all the time.
Whatever the bounds, the operations and the spelling of the paths: the paths in the table are
distinct, not empty and short enough, there are no more entries than slots, and of every path the
table tells what the map tells. Adding fails as the first check says that strikes, and otherwise
appends. Removing fails as the first check says that strikes, and otherwise hands out the entry that
had the path and moves the last one into its place. Changing an entry moves none, and what fails
changes nothing. -/
theorem table_is_bounded_map (capacity maxPathLength : Nat) (ops : List Table.Operation) :
    let run := logged Table.apply (.empty capacity maxPathLength) ops
    let reference := logged (Registry.apply capacity maxPathLength) ∅ ops
    let t := run.2
    let m := reference.2
    run.1 = reference.1 ∧
    ((t.entries.map Entry.path).Nodup ∧
      (∀ e ∈ t.entries, e.path ≠ "" ∧ e.path.utf8ByteSize ≤ maxPathLength) ∧
      t.size ≤ capacity ∧ t.capacity = capacity ∧ t.maxPathLength = maxPathLength) ∧
    (∀ q, t.find? q = m.lookup q ∧ (t.contains q = true ↔ q ∈ m) ∧
      (t.kindAt q).text = m.kindText q ∧ t.permissionsAt q = m.permissionText q) ∧
    (∀ path isDirectory offset tick,
      t.create path isDirectory offset tick =
        match verdict (t.createChecks path) with
        | .error err => (.error err, t)
        | .ok () =>
          let e := Entry.empty path isDirectory offset tick
          (.ok e, { t with entries := t.entries ++ [e] })) ∧
    (∀ path, (t.delete path).1.map (fun _ => ()) = verdict (t.deleteChecks path) ∧
      ∀ e t', t.delete path = (.ok e, t') →
        t.find? path = some e ∧ TakenOut path t.entries t'.entries ∧
          t'.capacity = capacity ∧ t'.maxPathLength = maxPathLength) ∧
    (∀ path size permissions,
      (t.apply (.revise path size permissions)).2.entries.map Entry.path =
          t.entries.map Entry.path ∧
        (t.find? path = none → (t.apply (.revise path size permissions)).2 = t)) ∧
    ∀ op err, (t.apply op).1 = .error err → (t.apply op).2 = t := by
  intro run reference t m
  obtain ⟨hlog, h⟩ :=
    logged_agree (fun t m op (h : Mirrors capacity maxPathLength t m) => h.apply op)
      (Mirrors.empty capacity maxPathLength) ops
  refine ⟨hlog, ⟨h.distinct, h.admitted, h.size_le, h.capacity_eq, h.maxPathLength_eq⟩, ?_,
    t.create_eq, ?_, ?_, fun op err => Table.apply_of_error⟩
  · intro q
    have hfind := h.find?_eq q
    refine ⟨hfind, ?_, ?_, ?_⟩
    · rw [Table.contains, hfind, Finmap.lookup_isSome]
    · rw [Table.kindAt, Registry.kindText, hfind]
      cases m.lookup q with
      | none => rfl
      | some e => cases hdir : e.isDirectory <;> simp [Entry.kind, Kind.text, hdir]
    · rw [Table.permissionsAt, Registry.permissionText, hfind]
      cases m.lookup q <;> rfl
  · intro path
    rcases t.delete_cases path with ⟨err, hdelete, hverdict⟩ | ⟨e, hfound, hdelete, hverdict⟩
    · rw [hdelete, hverdict]
      exact ⟨rfl, fun e t' hok => absurd hok (by simp)⟩
    · rw [hdelete, hverdict]
      refine ⟨rfl, ?_⟩
      intro d t' hok
      obtain ⟨hanswer, rfl⟩ := Prod.mk.inj hok
      obtain rfl := Except.ok.inj hanswer
      exact ⟨hfound, Table.takenOut_without hfound, h.capacity_eq, h.maxPathLength_eq⟩
  · intro path size permissions
    refine ⟨Table.map_modifyFirst (Entry.revised_path size permissions) _ _, ?_⟩
    intro hnone
    exact Table.update_of_missing hnone _

/-- Three slots, paths of three bytes, some of them spelled oddly. One operation of each kind fails;
the entry made last fills the hole of the one removed, and the map knows it by its new size. -/
theorem bounded_map_after_swap :
    let ops : List Table.Operation :=
      [.create "" true 0 1, .create "/" true 0 1, .create "a//" false 0 2, .create "/abc" false 0 3,
        .create "b" false 7 4, .create "/" false 0 5, .create "c" false 0 6, .delete "/",
        .delete "/a", .revise "b" (fun e => e.size + e.createdTick) (fun _ => .ownerOnly)]
    let run := logged Table.apply (.empty 3 3) ops
    let reference := logged (Registry.apply 3 3) ∅ ops
    let t := run.2
    t.entries.map Entry.path = ["/", "a//", "b"] ∧
      run.1 = reference.1 ∧
      t.permissionsAt "b" = reference.2.permissionText "b" ∧ t.permissionsAt "b" = "-rw-------" ∧
      t.create "c" false 0 7 = (.error .tableFull, t) ∧
      (∃ e t', t.delete "a//" = (.ok e, t') ∧ t.find? "a//" = some e ∧
        TakenOut "a//" t.entries t'.entries ∧ t'.entries.map Entry.path = ["/", "b"]) ∧
      (t.apply (.revise "/b" Entry.size Entry.permissions)).2 = t ∧
      (t.apply (.delete "/")).2 = t := by
  intro ops run reference t
  obtain ⟨hlog, -, hfind, hcreate, hdelete, hrevise, hfail⟩ := table_is_bounded_map 3 3 ops
  have hpaths : t.entries.map Entry.path = ["/", "a//", "b"] := by decide +kernel
  have hmissing : t.find? "/b" = none := by decide +kernel
  have hroot : (t.apply (.delete "/")).1 = .error .cannotDeleteRoot := by decide +kernel
  have hverdict : verdict (t.createChecks "c") = .error .tableFull := by decide +kernel
  have hfull : t.create "c" false 0 7 = (.error .tableFull, t) := by
    rw [hcreate, hverdict]
  have hremoved : (t.delete "a//").1.isOk = true := by decide +kernel
  have hgone : (t.delete "a//").2.entries.map Entry.path = ["/", "b"] := by decide +kernel
  obtain ⟨-, -, -, hpermissions⟩ := hfind "b"
  refine ⟨hpaths, hlog, hpermissions, by decide +kernel, hfull, ?_,
    (hrevise "/b" _ _).2 hmissing, hfail _ _ hroot⟩
  rcases hok : t.delete "a//" with ⟨err | e, t'⟩
  · rw [hok] at hremoved
    exact absurd hremoved Bool.false_ne_true
  · rw [hok] at hgone
    obtain ⟨hfound, htaken, -⟩ := (hdelete "a//").2 e t' hok
    exact ⟨e, t', rfl, hfound, htaken, hgone⟩

end RamShell.Volume
