import RamShell.Proofs.Path.Child
import RamShell.Proofs.Volume.Refusal
/-!
# RamShell.Proofs.Volume.Removal

What a deletion does. Like the other changes it comes down to a row of checks, of which the first
one that strikes is the answer. The last check asks whether anything lies below a directory. No
record says so, and the entries in between need not exist: what counts are the paths of all entries,
and by `Entry.isBelow_iff` starting with the stem of the directory is lying below it, at any depth.

A deletion that succeeds takes one entry out of the table and touches nothing else. The last entry
moves into its place (`TakenOut`), and both its slot and its path are free again, while its space in
the arena is not. The main statement is `delete_takes_out_one_entry`.
-/

namespace RamShell.Volume

variable {limits : Limits} {v w : Volume} {path dir c : String} {e : Entry}

/-! ### Why a deletion is refused -/

/-- An entry goes on after the stem of a directory exactly if the directory lies above it. -/
theorem Entry.isBelow_iff (hdir : Path.Canonical dir) (he : Path.Canonical e.path) :
    e.isBelow (Path.childStem dir) = true ↔ Path.Above dir e.path := by
  rw [← Path.below?_iff_above hdir he, isBelow]
  cases Path.below? (Path.childStem dir) e.path with
  | none => simp
  | some rest => simp

theorem Sound.hasBelow_iff (h : Sound limits v) (hdir : Path.Canonical dir) :
    v.table.hasBelow (Path.childStem dir) = true ↔
      ∃ e ∈ v.table.entries, Path.Above dir e.path := by
  rw [Table.hasBelow, List.any_eq_true]
  refine exists_congr fun e => and_congr_right fun he => ?_
  exact Entry.isBelow_iff hdir (h.entries e he).canonical

/-- What is checked when an entry is deleted, in order. -/
def deleteChecks (v : Volume) (path : String) : List (Bool × Error) :=
  let c := Path.normalize path
  [(path = "", .invalidPath),
    (c = Path.root, .cannotDeleteRoot),
    (∀ e ∈ v.table.entries, e.path ≠ c, .notFound),
    ((∃ e ∈ v.table.entries, e.path = c ∧ e.isDirectory = true) ∧
      (∃ e ∈ v.table.entries, Path.Above c e.path), .directoryNotEmpty)]

theorem Sound.delete_verdict (h : Sound limits v) (path : String) :
    (v.delete path).1 = verdict (v.deleteChecks path) := by
  rw [deleteChecks]
  simp only [Table.exists_path_iff h.distinct, ← Table.find?_eq_none_iff,
    ← h.hasBelow_iff (Path.canonical_normalize path)]
  rcases keyOf_cases path with ⟨hempty, hkey⟩ | ⟨hpath, hkey⟩
  · rw [verdict_of_strikes hempty, delete, hkey]
  rw [verdict_of_passes hpath, delete, hkey]
  by_cases hroot : Path.normalize path = Path.root
  · rw [verdict_of_strikes hroot]
    simp only [if_pos hroot]
  rw [verdict_of_passes hroot]
  simp only [if_neg hroot]
  cases hfound : v.table.find? (Path.normalize path) with
  | none => rw [verdict_of_strikes rfl]
  | some e =>
    simp only [Table.delete_eq_ok hroot hfound, Bool.and_eq_true, Option.some.injEq,
      exists_eq_left']
    rw [verdict_of_passes (by simp)]
    by_cases hfull : e.isDirectory = true ∧
        v.table.hasBelow (Path.childStem (Path.normalize path)) = true
    · rw [verdict_of_strikes hfull, if_pos hfull]
    · rw [verdict_of_passes hfull, if_neg hfull]
      rfl

/-! ### What a deletion leaves -/

/-- The entries before and after the one with a path was taken out. -/
inductive TakenOut (c : String) : List Entry → List Entry → Prop
  /-- The entry stood last, and no other one moves. -/
  | last {front : List Entry} {e : Entry} (hpath : e.path = c) : TakenOut c (front ++ [e]) front
  /-- The last entry moves into the place of the one taken out. -/
  | filled {front rest : List Entry} {e last : Entry} (hpath : e.path = c) :
      TakenOut c (front ++ e :: (rest ++ [last])) (front ++ last :: rest)

/-- With the element at the end of a list, nothing is left to move. -/
theorem Table.removeAt_last (front : List Entry) (e : Entry) :
    removeAt (front ++ [e]) front.length = front := by
  rw [removeAt, List.getLast?_concat]
  show ((front ++ [e]).set front.length e).dropLast = _
  rw [List.set_append_right _ _ (Nat.le_refl _), Nat.sub_self, List.set_cons_zero,
    List.dropLast_concat]

/-- In front of the end the last element fills the hole. -/
theorem Table.removeAt_before_last (front rest : List Entry) (e last : Entry) :
    removeAt (front ++ e :: (rest ++ [last])) front.length = front ++ last :: rest := by
  have hsplit (d : Entry) : front ++ d :: (rest ++ [last]) = front ++ d :: rest ++ [last] := by
    rw [List.append_assoc, List.cons_append]
  rw [removeAt, hsplit, List.getLast?_concat, ← hsplit]
  show ((front ++ e :: (rest ++ [last])).set front.length last).dropLast = _
  rw [List.set_append_right _ _ (Nat.le_refl _), Nat.sub_self, List.set_cons_zero, hsplit,
    List.dropLast_concat]

theorem Table.takenOut_without {t : Table} (he : t.find? c = some e) :
    TakenOut c t.entries (t.without c).entries := by
  obtain ⟨hpath, front, rest, hentries, hfront⟩ := List.find?_eq_some_iff_append.mp he
  have hc : e.path = c := by simpa using hpath
  have hfree : front.findIdx (·.path == c) = front.length :=
    List.findIdx_eq_length_of_false fun d hd => by simpa using hfront d hd
  have hidx : t.entries.findIdx (·.path == c) = front.length := by
    rw [hentries, List.findIdx_append, hfree, if_neg (Nat.lt_irrefl _), List.findIdx_cons, hpath,
      cond_true, Nat.zero_add]
  show TakenOut c t.entries (removeAt t.entries (t.entries.findIdx (·.path == c)))
  rw [hidx, hentries]
  -- Whether an entry moves is whether there is one behind.
  rcases List.eq_nil_or_concat' rest with rfl | ⟨rest, last, rfl⟩
  · rw [removeAt_last]
    exact .last hc
  · rw [removeAt_before_last]
    exact .filled hc

/-- Under the path of an entry that was taken out another one can be made at once: the path is as
short as before, and the slot is free. -/
theorem Sound.create_after_delete (h : Sound limits v)
    (hfound : v.table.find? (Path.normalize path) = some e) (isDirectory : Bool)
    (hw : w = { v with table := v.table.without (Path.normalize path) }) :
    w.create (Path.normalize path) isDirectory =
      (.ok (), { w with
        table := w.table.insert
          (.empty (Path.normalize path) isDirectory v.arena.used (v.tick + 1))
        tick := v.tick + 1 }) := by
  have hlength := Table.length_without hfound
  have hsize : v.table.entries.length ≤ v.table.capacity := h.size_le
  have hshort := (h.entries e (Table.mem_of_find? hfound)).short
  rw [Table.path_of_find? hfound, ← h.pathLength_eq] at hshort
  have hfree : w.table.find? (Path.normalize path) = none := by
    rw [hw, Table.find?_without h.distinct hfound, if_pos rfl]
  have hslot : w.table.size < w.table.capacity := by
    rw [hw]
    show (v.table.without _).entries.length < v.table.capacity
    omega
  have hcanonical := Path.canonical_normalize path
  rw [← hcanonical] at hfree hshort
  have hmade := create_eq_ok (v := w) hcanonical.ne_empty (hw ▸ hshort) hfree hslot isDirectory
  rw [hcanonical] at hmade
  rw [hmade, hw]

/-! ### Every reachable volume -/

/-- In every reachable volume, the first check that strikes decides what is answered to a deletion,
and if none strikes it succeeds. Then the path names nothing under any spelling, and every other
path names the record that it did; the entries are the old ones with the last one moved into the
place of the one taken out; and arena and clock are as they were. An entry made next under the same
path finds a slot, is empty, and gets no space back. -/
theorem delete_takes_out_one_entry (h : Reachable limits v) (path : String) :
    (v.delete path).1 = verdict (v.deleteChecks path) ∧
    ∀ w, v.delete path = (.ok (), w) →
      let c := Path.normalize path
      (∀ q, w.find? q = if Path.normalize q = c then none else v.find? q) ∧
      TakenOut c v.table.entries w.table.entries ∧
      w.arena = v.arena ∧ w.tick = v.tick ∧
      ∀ isDirectory, ∃ x, w.create c isDirectory = (.ok (), x) ∧
        x.table.entries =
          w.table.entries ++ [.empty c isDirectory v.arena.used (v.tick + 1)] ∧
        x.arena = v.arena := by
  have hs := sound_of_reachable h
  refine ⟨hs.delete_verdict path, ?_⟩
  intro w hok c
  have heffect : Effect v (.delete path) w := effect_of_ok hs.used_le hok
  cases heffect with
  | removed _ hroot hfound =>
    refine ⟨?_, Table.takenOut_without hfound, rfl, rfl, ?_⟩
    · intro q
      by_cases hq : q = ""
      · -- The empty path names nothing before or after, and is no spelling of what was deleted.
        subst hq
        rw [find?_empty, find?_empty]
        exact (ite_self none).symm
      · rw [find?_eq hq, find?_eq hq]
        exact Table.find?_without hs.distinct hfound (Path.normalize q)
    · intro isDirectory
      exact ⟨_, hs.create_after_delete hfound isDirectory rfl, rfl, rfl⟩

/-- `/ab` does not lie below `/a`, and a file does whose own directory is missing. Once the file is
gone, the entry made last stands in its place, and the directory can be deleted too. -/
theorem deletions_above_and_beside :
    let v := ((ofLimits ⟨5, 8, 4, 16, .inPlace⟩).serve
      [.create "/a" true, .write "/a/b/c" [1, 2], .create "/ab" true, .write "/z" [3]]).2
    let w := (v.delete "a/./b//c").2
    (v.delete "").1 = .error .invalidPath ∧
      (v.delete "/a/..").1 = .error .cannotDeleteRoot ∧
      (v.delete "/a/b").1 = .error .notFound ∧
      (v.delete "/a").1 = .error .directoryNotEmpty ∧
      v.delete "a/./b//c" = (.ok (), w) ∧
      w.table.entries.map Entry.path = ["/", "/a", "/z", "/ab"] ∧
      w.find? "/a/b/c" = none ∧ w.find? "/z" = v.find? "/z" ∧ w.arena = v.arena ∧
      (∃ x, w.create "/a/b/c" true = (.ok (), x) ∧ x.arena.used = 3) ∧
      (w.delete "/a").1 = .ok () := by
  intro v w
  have hv : Reachable ⟨5, 8, 4, 16, .inPlace⟩ v := Reachable.serve .start _
  have hw : Reachable ⟨5, 8, 4, 16, .inPlace⟩ w := hv.step (.delete "a/./b//c")
  have hverdict := fun path => (delete_takes_out_one_entry hv path).1
  have hok : v.delete "a/./b//c" = (.ok (), w) := by decide
  obtain ⟨hfind, -, harena, -, hagain⟩ := (delete_takes_out_one_entry hv "a/./b//c").2 w hok
  obtain ⟨x, hmade, -, hx⟩ := hagain true
  have hused : x.arena.used = 3 := by
    rw [hx]
    decide
  refine ⟨?_, ?_, ?_, ?_, hok, by decide, hfind "/a/b/c", hfind "/z", harena,
    ⟨x, hmade, hused⟩, ?_⟩
  · rw [hverdict]
    decide
  · rw [hverdict]
    decide
  · rw [hverdict]
    decide
  · rw [hverdict]
    decide
  · rw [(delete_takes_out_one_entry hw "/a").1]
    decide

end RamShell.Volume
