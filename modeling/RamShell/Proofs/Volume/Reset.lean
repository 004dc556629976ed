import RamShell.Proofs.Volume.Run
/-!
# RamShell.Proofs.Volume.Reset

Dropping everything leaves no trace. A reset keeps four numbers of the volume it is asked of: its
limits, the slots and the path length of its table, and the size of its arena. All of them are what
the volume was made with, since no change touches them (`Sound`), so what a reset leaves is the
volume that was made in the first place (`Sound.reset_eq`) and not only one that looks like it.

Requests are answered from the volume alone. Whatever was asked before a reset therefore has no
bearing on what is answered after it: the main statement is `reset_leaves_no_residue`.
-/

namespace RamShell.Volume

variable {limits : Limits} {v : Volume}

/-- Requests asked one after the other, and then more of them. -/
theorem serve_append (v : Volume) (rs qs : List Request) :
    v.serve (rs ++ qs) =
      ((v.serve rs).1 ++ ((v.serve rs).2.serve qs).1, ((v.serve rs).2.serve qs).2) := by
  induction rs generalizing v with
  | nil => rfl
  | cons r rs ih => rw [List.cons_append, serve_cons, serve_cons, ih, List.cons_append]

/-- What a volume is made of that holds the root and nothing else: one record with the first tick
and no space, an arena of zeros with its cursor at the start, and the bounds of the table. -/
theorem ofLimits_fields (limits : Limits) :
    (ofLimits limits).limits = limits ∧
    (ofLimits limits).table.entries = [⟨"/", 0, ⟨0, 0⟩, true, 1, 1, .standard⟩] ∧
    (ofLimits limits).table.capacity = max limits.maxEntries 1 ∧
    (ofLimits limits).table.maxPathLength = max limits.maxPathLength 1 ∧
    (ofLimits limits).arena.capacity = limits.arenaCapacity ∧
    (ofLimits limits).arena.used = 0 ∧
    (∀ i, (ofLimits limits).arena.byteAt i = 0) ∧
    (ofLimits limits).tick = 1 := by
  rw [ofLimits_eq]
  exact ⟨rfl, rfl, rfl, rfl, rfl, rfl, Arena.byteAt_zeroed _, rfl⟩

/-- A reset in the middle of a row of requests: what comes after it is answered by a fresh
volume. -/
theorem Sound.serve_reset (h : Sound limits v) (rs qs : List Request) :
    v.serve (rs ++ .reset :: qs) =
      ((v.serve rs).1 ++ .done :: ((ofLimits limits).serve qs).1,
        ((ofLimits limits).serve qs).2) := by
  have hs : Sound limits (v.serve rs).2 := h.run (h.run_serve rs)
  have hreset : (v.serve rs).2.answer .reset = (.done, ofLimits limits) :=
    congrArg (Prod.mk Reply.done) hs.reset_eq
  rw [serve_append, serve_cons, hreset]

/-- In every reachable volume, a reset leaves exactly the volume that was made from the limits: the
root as its one record with the tick and the place it was made with, an arena of zeros of the size
asked for with all of it free, and the same bounds of the table. Later requests are answered alike
on both and leave the same volumes. Requests before a reset have no bearing on those after it, and
two volumes with the same limits cannot be told apart once they are reset. -/
theorem reset_leaves_no_residue (h : Reachable limits v) :
    v.reset = ofLimits limits ∧
    v.reset.limits = limits ∧
    v.reset.table.entries = [⟨"/", 0, ⟨0, 0⟩, true, 1, 1, .standard⟩] ∧
    v.reset.table.capacity = max limits.maxEntries 1 ∧
    v.reset.table.maxPathLength = max limits.maxPathLength 1 ∧
    v.reset.arena.capacity = limits.arenaCapacity ∧
    v.reset.arena.used = 0 ∧
    (∀ i, v.reset.arena.byteAt i = 0) ∧
    v.reset.tick = 1 ∧
    (∀ rs, v.reset.serve rs = (ofLimits limits).serve rs) ∧
    (∀ rs qs, v.serve (rs ++ .reset :: qs) =
      ((v.serve rs).1 ++ .done :: ((ofLimits limits).serve qs).1,
        ((ofLimits limits).serve qs).2)) ∧
    ∀ w, Reachable limits w → w.reset = v.reset := by
  have hs := sound_of_reachable h
  have hreset := hs.reset_eq
  obtain ⟨hlimits, hentries, hslots, hlength, hcapacity, hused, hbytes, htick⟩ :=
    ofLimits_fields limits
  rw [hreset]
  refine ⟨rfl, hlimits, hentries, hslots, hlength, hcapacity, hused, hbytes, htick, ?_, ?_, ?_⟩
  · intro rs
    rfl
  · intro rs qs
    exact hs.serve_reset rs qs
  · intro w hw
    exact (sound_of_reachable hw).reset_eq

/-- A volume whose files grew in place, were moved by a deletion and left bytes behind answers after
a reset as if it had just been made: the file made next gets the second tick and the first byte. -/
theorem answers_after_reset :
    let limits : Limits := ⟨3, 8, 6, 8, .inPlace⟩
    let rs : List Request :=
      [.write "/b" [3], .write "/a" [1, 2], .delete "/b", .write "/a" [4, 5, 6]]
    let v := ((ofLimits limits).serve rs).2
    v.arena.byteAt 3 = 6 ∧ v.tick = 4 ∧ v.reset = ofLimits limits ∧
      (v.serve [.reset, .write "c" [7], .stat "/c", .readAll "/a", .usage]).1 =
        [.done, .done, .record ⟨"/c", 1, ⟨0, 1⟩, false, 2, 2, .standard⟩, .failed .notFound,
          .figures ⟨2, 1, 1, 1, 5⟩] := by
  intro limits rs v
  have hv : Reachable limits v := .serve .start rs
  obtain ⟨hreset, -, -, -, -, -, -, -, -, -, hserve, -⟩ := reset_leaves_no_residue hv
  have hafter := hserve [] [.write "c" [7], .stat "/c", .readAll "/a", .usage]
  refine ⟨by decide, by decide, hreset, ?_⟩
  rw [List.nil_append] at hafter
  rw [hafter]
  decide

end RamShell.Volume
