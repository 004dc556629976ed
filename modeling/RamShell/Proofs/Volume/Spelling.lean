import Mathlib.Data.List.Forall2
import RamShell.Proofs.Volume.Run
/-!
# RamShell.Proofs.Volume.Spelling

How a path is spelled does not matter. `spelling_never_matters` says so of every request about a
path, and of whole runs of such requests: two spellings of one place are given the same reply and
leave the same volume. The empty path is no spelling of anything.

Requests come to the table in three ways: changes and listings ask for the canonical form and stop
without one, lookups find nothing without one, and the permissions shown for a path are those that
the table has under the empty path if there is no other to ask for. All three see of a path only
what `keyOf` makes of it, and that is where spellings become one. The third way needs more, namely
that nothing is ever stored under the empty path; this is where the invariant of reachable volumes
comes in.
-/

namespace RamShell.Volume

/-! ### Requests about a path -/

/-- What can be asked about a path. -/
inductive PathRequest
  /-- Make an empty file or directory. -/
  | create (isDirectory : Bool)
  /-- Make a directory and what is missing on the way to it. -/
  | createDirs
  /-- Replace the content of a file. -/
  | write (bytes : Bytes)
  /-- Remove a file or an empty directory. -/
  | delete
  /-- Replace permission bits. -/
  | setPermissions (mode : UInt16)
  /-- Read a file into a buffer. -/
  | read (buffer : Bytes)
  /-- Read the whole of a file. -/
  | readAll
  /-- Ask whether the path names an entry. -/
  | contains
  /-- Ask for a content length. -/
  | sizeAt
  /-- Ask what the path names. -/
  | kindAt
  /-- Ask for permissions as text. -/
  | permissionsAt
  /-- Ask for a record. -/
  | stat
  /-- List a directory. -/
  | list
  /-- List a directory into a buffer. -/
  | listPacked (buffer : Bytes)
  deriving DecidableEq, Repr

namespace PathRequest

/-- The request for a given path. -/
def on (path : String) : PathRequest → Request
  | create isDirectory => .create path isDirectory
  | createDirs => .createDirs path
  | write bytes => .write path bytes
  | delete => .delete path
  | setPermissions mode => .setPermissions path mode
  | read buffer => .read path buffer
  | readAll => .readAll path
  | contains => .contains path
  | sizeAt => .sizeAt path
  | kindAt => .kindAt path
  | permissionsAt => .permissionsAt path
  | stat => .stat path
  | list => .list path
  | listPacked buffer => .listPacked path buffer

/-- Whether a request looks for an entry and has an answer also where there is none. The others need
a path that has a canonical form. -/
def looksUp : PathRequest → Bool
  | read _ | readAll | contains | sizeAt | kindAt | permissionsAt | stat => true
  | create _ | createDirs | write _ | delete | setPermissions _ | list | listPacked _ => false

/-- The reply to a request about the empty path. -/
def blank : PathRequest → Reply
  | create _ | createDirs | write _ | delete | setPermissions _ | list | listPacked _ =>
    .failed .invalidPath
  | read _ | readAll | stat => .failed .notFound
  | contains => .flag false
  | sizeAt => .number 0
  | kindAt => .text Kind.unknown.text
  | permissionsAt => .text Permissions.absent

end PathRequest

/-- Two requests that differ at most in the spelling of the path that they are about. -/
inductive Request.Respells : Request → Request → Prop
  /-- The same request. -/
  | same (r : Request) : Respells r r
  /-- The same request about another spelling of its path. -/
  | path (r : PathRequest) {p q : String} (hp : p ≠ "") (hq : q ≠ "")
      (hplace : Path.normalize p = Path.normalize q) : Respells (r.on p) (r.on q)

variable {limits : Limits} {v : Volume} {p q : String}

/-! ### Ways to the table -/

theorem keyOf_congr (hp : p ≠ "") (hq : q ≠ "") (h : Path.normalize p = Path.normalize q) :
    keyOf p = keyOf q := by
  obtain ⟨-, hkeyp⟩ := (keyOf_cases p).resolve_left fun hempty => hp hempty.1
  obtain ⟨-, hkeyq⟩ := (keyOf_cases q).resolve_left fun hempty => hq hempty.1
  rw [hkeyp, hkeyq, h]

theorem find?_congr (v : Volume) (h : keyOf p = keyOf q) : v.find? p = v.find? q := by
  simp only [find?, h]

/-- Reading the whole of a file is reading into a buffer of its length, and keeping what was
read. -/
theorem readAll_eq_read (v : Volume) (path : String) :
    v.readAll path =
      (v.read path (List.replicate (v.sizeAt path) 0)).map fun (count, buffer) =>
        buffer.take count := by
  simp only [readAll, read, sizeAt]
  cases v.find? path with
  | none => rfl
  | some e =>
    cases hdir : e.isDirectory with
    | true =>
      simp only [hdir, if_true]
      rfl
    | false =>
      simp only [hdir, Bool.false_eq_true, if_false, Except.map, Arena.read, Option.map_some,
        Option.getD_some, List.length_replicate, Nat.min_self, List.take_left]

/-- No entry is stored under the empty path. -/
theorem Sound.find?_blank (h : Sound limits v) : v.table.find? "" = none := by
  rw [Table.find?_eq_none_iff]
  intro e he
  exact (h.entries e he).canonical.ne_empty

/-- What has no canonical form may as well be looked for under the empty path. -/
theorem Sound.permissionsAt_eq_default (h : Sound limits v) (path : String) :
    v.permissionsAt path = v.table.permissionsAt ((keyOf path).toOption.getD "") := by
  rcases keyOf_cases path with ⟨rfl, hkey⟩ | ⟨hpath, hkey⟩
  · rw [hkey, permissionsAt, find?_empty, Table.permissionsAt, Except.toOption, Option.getD_none,
      h.find?_blank]
  · rw [hkey, permissionsAt, find?_eq hpath, Table.permissionsAt, Except.toOption, Option.getD_some]

/-! ### One request -/

/-- A request sees of its path only what `keyOf` makes of it. -/
theorem answer_congr (hv : Sound limits v) (h : keyOf p = keyOf q) (r : PathRequest) :
    v.answer (r.on p) = v.answer (r.on q) := by
  have hfind : v.find? p = v.find? q := find?_congr v h
  have hread : ∀ buffer, v.read p buffer = v.read q buffer := by
    intro buffer
    simp only [read, hfind]
  have hsize : v.sizeAt p = v.sizeAt q := by simp only [sizeAt, hfind]
  have hlist : v.list p = v.list q := by simp only [list, h]
  cases r with
  | create isDirectory => simp only [PathRequest.on, answer, create, h]
  | createDirs => simp only [PathRequest.on, answer, createDirs, h]
  | write bytes => simp only [PathRequest.on, answer, write, h]
  | delete => simp only [PathRequest.on, answer, delete, h]
  | setPermissions mode => simp only [PathRequest.on, answer, setPermissions, h]
  | read buffer => simp only [PathRequest.on, answer, hread]
  | readAll => simp only [PathRequest.on, answer, readAll_eq_read, hread, hsize]
  | contains => simp only [PathRequest.on, answer, contains, hfind]
  | sizeAt => simp only [PathRequest.on, answer, hsize]
  | kindAt => simp only [PathRequest.on, answer, kindAt, hfind]
  | permissionsAt => simp only [PathRequest.on, answer, hv.permissionsAt_eq_default, h]
  | stat => simp only [PathRequest.on, answer, stat, hfind]
  | list => simp only [PathRequest.on, answer, hlist]
  | listPacked buffer => simp only [PathRequest.on, answer, listPacked, hlist]

/-- A lookup that finds nothing. -/
theorem answer_of_missing {r : PathRequest} (hr : r.looksUp = true) (hnone : v.find? p = none) :
    v.answer (r.on p) = (r.blank, v) := by
  have hread : ∀ buffer, v.read p buffer = .error .notFound := by
    intro buffer
    simp only [read, hnone]
  cases r with
  | read buffer => rw [PathRequest.on, answer, hread]; rfl
  | readAll => rw [PathRequest.on, answer, readAll_eq_read, hread]; rfl
  | contains => rw [PathRequest.on, answer, contains, hnone]; rfl
  | sizeAt => rw [PathRequest.on, answer, sizeAt, hnone]; rfl
  | kindAt => rw [PathRequest.on, answer, kindAt, hnone]; rfl
  | permissionsAt => rw [PathRequest.on, answer, permissionsAt, hnone]; rfl
  | stat => rw [PathRequest.on, answer, stat, hnone]; rfl
  | _ => contradiction

theorem answer_blank (v : Volume) (r : PathRequest) : v.answer (r.on "") = (r.blank, v) := by
  cases hr : r.looksUp with
  | true => exact answer_of_missing hr (find?_empty v)
  | false =>
    -- What needs a canonical form stops at once.
    cases r with
    | create isDirectory => rfl
    | createDirs => rfl
    | write bytes => rfl
    | delete => rfl
    | setPermissions mode => rfl
    | list => rfl
    | listPacked buffer => rfl
    | _ => contradiction

/-! ### Runs -/

theorem Sound.answer_of_respells (hv : Sound limits v) {r r' : Request} (h : r.Respells r') :
    v.answer r = v.answer r' := by
  cases h with
  | same => rfl
  | path r hp hq hplace => exact answer_congr hv (keyOf_congr hp hq hplace) r

theorem Sound.serve_of_respells (hv : Sound limits v) {rs rs' : List Request}
    (h : List.Forall₂ Request.Respells rs rs') : v.serve rs = v.serve rs' := by
  induction h generalizing v with
  | nil => rfl
  | @cons r r' rs rs' hr _ ih =>
    have hanswer : v.answer r = v.answer r' := hv.answer_of_respells hr
    rw [serve_cons, serve_cons, ← hanswer, ih (hv.answer r)]

/-- On every reachable volume, requests about two spellings of one place are given the same reply
and leave the same volume, and so do runs of requests that differ in spelling. No entry has the
empty path: a request about it is refused, or answered as for a path that names nothing, and leaves
the volume as it was. -/
theorem spelling_never_matters (h : Reachable limits v) :
    (∀ (r : PathRequest) (p q : String), p ≠ "" → q ≠ "" → Path.normalize p = Path.normalize q →
        v.answer (r.on p) = v.answer (r.on q)) ∧
      (∀ rs rs' : List Request, List.Forall₂ Request.Respells rs rs' → v.serve rs = v.serve rs') ∧
      (∀ e ∈ v.table.entries, e.path ≠ "") ∧
      (∀ r : PathRequest, v.answer (r.on "") = (r.blank, v)) ∧
      ∀ (r : PathRequest) (q : String), r.looksUp = true →
        (∀ e ∈ v.table.entries, e.path ≠ Path.normalize q) →
        v.answer (r.on "") = v.answer (r.on q) := by
  have hv : Sound limits v := sound_of_reachable h
  refine ⟨?_, ?_, ?_, answer_blank v, ?_⟩
  · intro r p q hp hq hplace
    exact answer_congr hv (keyOf_congr hp hq hplace) r
  · intro rs rs' hrs
    exact hv.serve_of_respells hrs
  · exact Table.find?_eq_none_iff.mp hv.find?_blank
  · intro r q hr hmissing
    -- The empty path has the canonical form of the root, which is never missing.
    have hq : q ≠ "" := by
      rintro rfl
      obtain ⟨e, he, hpath, -⟩ := hv.root
      exact hmissing e (List.mem_of_mem_head? he) hpath
    have hnone : v.find? q = none := by
      rw [find?_eq hq]
      exact Table.find?_eq_none_iff.mpr hmissing
    rw [answer_blank, answer_of_missing hr hnone]

/-- Writing to a file under another spelling makes no second entry, the root is not deleted under
any of its names, and the empty path has no permissions to show. -/
theorem spellings_of_one_file :
    let v := ((ofLimits ⟨8, 16, 16, 16, .relocate⟩).serve [.createDirs "/a/b", .write "/a/f" [1]]).2
    let w := (v.answer (.write "a//b/./../f/" [2])).2
    v.answer (.write "a//b/./../f/" [2]) = v.answer (.write "/a/f" [2]) ∧
      w.table.entries.map Entry.path = ["/", "/a", "/a/b", "/a/f"] ∧
      v.serve [.list "a/", .delete "x/../.."] = v.serve [.list "/a", .delete "/"] ∧
      v.answer (.create "" true) = (.failed .invalidPath, v) ∧
      v.answer (.permissionsAt "") = v.answer (.permissionsAt "/a/g") := by
  intro v w
  have hv : Reachable ⟨8, 16, 16, 16, .relocate⟩ v := Reachable.serve .start _
  obtain ⟨hone, hrun, -, hblank, hmissing⟩ := spelling_never_matters hv
  refine ⟨?_, by decide, ?_, hblank (.create true), ?_⟩
  · exact hone (.write [2]) _ _ (by decide) (by decide) (by decide)
  · exact hrun _ _ (.cons (.path .list (by decide) (by decide) (by decide))
      (.cons (.path .delete (by decide) (by decide) (by decide)) .nil))
  · exact hmissing .permissionsAt "/a/g" rfl (by decide)

end RamShell.Volume
