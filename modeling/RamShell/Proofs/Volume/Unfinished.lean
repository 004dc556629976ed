import RamShell.Proofs.Path.Child
import RamShell.Proofs.Volume.Atomic
import RamShell.Proofs.Volume.Descent
/-!
# RamShell.Proofs.Volume.Unfinished

What a change leaves behind when it fails. An elementary change leaves nothing: it is made as a
whole or not at all (`AllOrNothing`). Making a directory with its parents is a row of creations,
and the one that fails leaves those before it.

The main statement is `createDirs_of_error`: the volume that a failure leaves is the one before it
with directories added, each with a tick of its own (`withDirs`), and every one of them lies above
the directory that was asked for.
-/

namespace RamShell.Volume

variable {limits : Limits} {v w : Volume} {path : String}

/-! ### All or nothing -/

/-- A change that leaves the volume as it was if it fails. -/
def AllOrNothing (v : Volume) (result : Result Unit) : Prop :=
  ∀ e, result.1 = .error e → result.2 = v

theorem Sound.allOrNothing (h : Sound limits v) (c : Change) : AllOrNothing v (v.apply c) :=
  fun _ he => h.eq_of_error he

theorem allOrNothing_refused (v : Volume) (e : Error) : AllOrNothing v (.error e, v) :=
  fun _ _ => rfl

/-! ### Directories that were made -/

/-- What comes before another directory on the way down to a path lies above the path. -/
theorem above_of_chain {before after : List String} {stuck : String}
    (h : chain (Path.names path) = before ++ stuck :: after) {dir : String}
    (hdir : dir ∈ before) : Path.Above dir path := by
  obtain ⟨i, hi⟩ := List.mem_iff_getElem?.mp hdir
  obtain ⟨hbefore, -⟩ := List.getElem?_eq_some_iff.mp hi
  have hlength : (Path.names path).length = before.length + (after.length + 1) := by
    have hlengths := congrArg List.length h
    simpa [chain] using hlengths
  have hget : (chain (Path.names path))[i]? = some dir := by
    rw [h, List.getElem?_append_left hbefore, hi]
  have hlt : i < (Path.names path).length := by omega
  obtain rfl : Path.ofNames ((Path.names path).take (i + 1)) = dir := by
    simpa [chain, List.getElem?_range hlt] using hget
  refine ⟨(Path.names path).take (i + 1), (Path.names path).drop (i + 1), ?_, ?_, rfl⟩
  · -- A directory after this one is on the way too.
    rw [ne_eq, List.drop_eq_nil_iff]
    omega
  · exact (List.take_append_drop ..).symm

/-- If a directory cannot be made with its parents, what was made are directories above it that did
not exist. -/
theorem createDirs_of_error {e : Error} (he : (v.createDirs path).1 = .error e) :
    ∃ made, (∀ dir ∈ made, Path.Above dir path ∧ v.table.find? dir = none) ∧
      (v.createDirs path).2 = v.withDirs made := by
  by_cases hpath : path = ""
  · subst hpath
    exact ⟨[], fun _ hd => absurd hd List.not_mem_nil, (withDirs_nil v).symm⟩
  rcases createDirs_cases v hpath with
    ⟨w, hw, -⟩ | ⟨before, stuck, after, err, w, hsplit, hw, hmade, -⟩
  · rw [hw] at he
    exact absurd he (by simp)
  · rw [hw]
    refine ⟨v.missing before, fun dir hdir => ?_, hmade.eq_withDirs⟩
    obtain ⟨hbefore, hmissing⟩ := mem_missing.mp hdir
    exact ⟨above_of_chain hsplit hbefore, hmissing⟩

end RamShell.Volume
