import Mathlib
import RamShell.Proofs.Volume.Run
/-!
# RamShell.Proofs.Volume.Extents

How extents lie in the arena of a volume that relocates. Space is handed out at the cursor and
never taken back, so no extent reaches past the cursor and no two extents have a byte in common;
`Laid` is this invariant. It is what a file relies on when another one is written.

The main statement is `extents_apart_below_cursor`: the invariant holds in every reachable volume,
so the extents take no more room than was handed out, and the cursor moves by what a write needs
beyond the extent it finds.
-/

namespace RamShell.Volume

/-! ### Extents that are apart fit side by side -/

/-- The indices that some of the extents cover. -/
def covered : List Extent → Finset Nat
  | [] => ∅
  | x :: xs => Finset.Ico x.offset x.stop ∪ covered xs

theorem mem_covered {xs : List Extent} {i : Nat} :
    i ∈ covered xs ↔ ∃ x ∈ xs, x.offset ≤ i ∧ i < x.stop := by
  induction xs with
  | nil => simp [covered]
  | cons x xs ih => simp [covered, ih]

/-- Extents that are pairwise apart cover as many indices as they have together. -/
theorem card_covered {xs : List Extent} (h : xs.Pairwise Extent.Apart) :
    (covered xs).card = (xs.map Extent.length).sum := by
  induction xs with
  | nil => rfl
  | cons x xs ih =>
    obtain ⟨hx, hxs⟩ := List.pairwise_cons.mp h
    have hdisjoint : Disjoint (Finset.Ico x.offset x.stop) (covered xs) := by
      rw [Finset.disjoint_left]
      intro i hi hcov
      obtain ⟨y, hy, hiy⟩ := mem_covered.mp hcov
      exact (hx y hy).not_both i ⟨Finset.mem_Ico.mp hi, hiy⟩
    rw [covered, Finset.card_union_of_disjoint hdisjoint, ih hxs, Nat.card_Ico, List.map_cons,
      List.sum_cons, Extent.stop, Nat.add_sub_cancel_left]

/-- Extents below a bound that are pairwise apart have at most that length together. -/
theorem sum_length_le {xs : List Extent} {bound : Nat} (hbelow : ∀ x ∈ xs, x.stop ≤ bound)
    (hapart : xs.Pairwise Extent.Apart) : (xs.map Extent.length).sum ≤ bound := by
  rw [← card_covered hapart, ← Finset.card_range bound]
  apply Finset.card_le_card
  intro i hi
  obtain ⟨x, hx, -, hstop⟩ := mem_covered.mp hi
  exact Finset.mem_range.mpr (Nat.lt_of_lt_of_le hstop (hbelow x hx))

/-! ### The invariant -/

/-- No extent reaches past the cursor, and no two entries share a byte. -/
structure Laid (v : Volume) : Prop where
  /-- All content lies where space was handed out. -/
  below : ∀ e ∈ v.table.entries, e.extent.stop ≤ v.arena.used
  /-- No two entries have space in common. -/
  apart : ∀ d ∈ v.table.entries, ∀ e ∈ v.table.entries, d.path ≠ e.path → d.extent.Apart e.extent

theorem laid_ofLimits (limits : Limits) : Laid (ofLimits limits) := by
  rw [ofLimits_eq]
  constructor
  · intro e he
    rw [List.mem_singleton.mp he]
    exact Nat.le_refl 0
  · intro d hd e he hne
    rw [List.mem_singleton.mp hd, List.mem_singleton.mp he] at hne
    exact absurd rfl hne

variable {limits : Limits} {v w : Volume} {c : Change}

/-- The cursor only moves on when space is handed out for new content. -/
theorem Placement.used_le {x place : Extent} {size : Nat} {arena : Arena}
    (h : Placement v x size place arena) : v.arena.used ≤ arena.used := by
  cases h with
  | keep => exact Nat.le_refl _
  | inPlace => exact Nat.le_refl _
  | relocate => exact Nat.le_add_right ..

namespace Laid

/-- An entry put at the end whose extent starts at the cursor. -/
theorem insert (h : Laid v) {e : Entry} (hoffset : e.extent.offset = v.arena.used) {arena : Arena}
    (hused : arena.used = e.extent.stop) (tick : Nat) :
    Laid { v with table := v.table.insert e, arena := arena, tick := tick } := by
  -- All other extents end where the new one starts, or before.
  have hold : ∀ d ∈ v.table.entries, d.extent.stop ≤ e.extent.offset :=
    fun d hd => hoffset ▸ h.below d hd
  constructor
  · intro d hd
    show d.extent.stop ≤ arena.used
    rcases Table.mem_insert.mp hd with hd | rfl
    · rw [hused]
      exact (hold d hd).trans (Nat.le_add_right ..)
    · exact hused.ge
  · intro a hain b hbin hne
    rcases Table.mem_insert.mp hain with ha | ha <;> rcases Table.mem_insert.mp hbin with hb | hb
    · exact h.apart a ha b hb hne
    · exact hb ▸ Or.inl (hold a ha)
    · exact ha ▸ Or.inr (hold b hb)
    · exact absurd (congrArg Entry.path (ha.trans hb.symm)) hne

/-- New content of a file never lands in the extent of another entry. -/
theorem place_apart (h : Laid v) (hpolicy : v.limits.growth = .relocate) {e d : Entry}
    (he : e ∈ v.table.entries) (hd : d ∈ v.table.entries) (hne : e.path ≠ d.path)
    {place : Extent} {size : Nat} {arena : Arena} (hplace : Placement v e.extent size place arena) :
    place.Apart d.extent := by
  cases hplace with
  | keep => exact h.apart e he d hd hne
  | inPlace _ hin => exact absurd (hpolicy.symm.trans hin) (by decide)
  | relocate => exact Or.inr (h.below d hd)

/-- New content of a file lies below the cursor once its space was handed out. -/
theorem place_below (h : Laid v) (hpolicy : v.limits.growth = .relocate) {e : Entry}
    (he : e ∈ v.table.entries) {place : Extent} {size : Nat} {arena : Arena}
    (hplace : Placement v e.extent size place arena) : place.stop ≤ arena.used := by
  cases hplace with
  | keep => exact h.below e he
  | inPlace _ hin => exact absurd (hpolicy.symm.trans hin) (by decide)
  | relocate => exact Nat.le_refl _

/-- Every change that takes place keeps the extents apart and below the cursor. -/
theorem effect (hl : Laid v) (h : Sound limits v) (hpolicy : limits.growth = .relocate)
    (he : Effect v c w) : Laid w := by
  have hgrowth : v.limits.growth = .relocate := h.limits_eq ▸ hpolicy
  cases he with
  | made => exact hl.insert rfl rfl _
  | filed => exact hl.insert rfl rfl _
  | @rewritten path bytes e place arena hpath hsize hfound hfile hplace hfit =>
    have hmem := Table.mem_of_find? hfound
    have hpath := Table.path_of_find? hfound
    have hcases := fun d => Table.mem_update (d := d) h.distinct
      (Entry.withContent_path bytes.length place (v.tick + 1)) hfound
    constructor
    · intro d hd
      have hstop := hl.place_below hgrowth hmem hplace
      rcases (hcases d).mp hd with rfl | ⟨hd, -⟩
      · exact hstop
      · exact (hl.below d hd).trans hplace.used_le
    · intro a ha b hb hne
      -- Only pairs with the rewritten entry are new, and its place is apart from all others.
      rcases (hcases a).mp ha with rfl | ⟨ha, hac⟩ <;> rcases (hcases b).mp hb with rfl | ⟨hb, hbc⟩
      · exact absurd rfl hne
      · exact hl.place_apart hgrowth hmem hb hne hplace
      · exact (hl.place_apart hgrowth hmem ha hne.symm hplace).symm
      · exact hl.apart a ha b hb hne
  | @removed path e hpath hroot hfound hempty =>
    have hcases := fun d => Table.mem_without (d := d) h.distinct hfound
    constructor
    · exact fun d hd => hl.below d ((hcases d).mp hd).1
    · exact fun a ha b hb => hl.apart a ((hcases a).mp ha).1 b ((hcases b).mp hb).1
  | @permitted path mode e hpath hfound =>
    have hmem := Table.mem_of_find? hfound
    have hcases := fun d => Table.mem_update (d := d) h.distinct
      (Entry.withMode_path mode (v.tick + 1)) hfound
    -- A changed mode leaves every extent with the path it belongs to.
    have hold : ∀ d ∈ (v.table.update (Path.normalize path) (.withMode mode (v.tick + 1))).entries,
        ∃ b ∈ v.table.entries, b.path = d.path ∧ b.extent = d.extent := by
      intro d hd
      rcases (hcases d).mp hd with rfl | ⟨hd, -⟩
      · exact ⟨e, hmem, rfl, rfl⟩
      · exact ⟨d, hd, rfl, rfl⟩
    constructor
    · intro d hd
      obtain ⟨b, hb, -, hx⟩ := hold d hd
      exact hx ▸ hl.below b hb
    · intro a ha b hb hne
      obtain ⟨a', ha', hpa, hxa⟩ := hold a ha
      obtain ⟨b', hb', hpb, hxb⟩ := hold b hb
      rw [← hxa, ← hxb]
      exact hl.apart a' ha' b' hb' (by rwa [hpa, hpb])
  | reset =>
    rw [h.reset_eq]
    exact laid_ofLimits limits

theorem run (hl : Laid v) (h : Sound limits v) (hpolicy : limits.growth = .relocate)
    {cs : List Change} (hrun : Run v cs w) : Laid w := by
  induction hrun with
  | done => exact hl
  | step hc _ ih =>
    have he := effect_of_ok h.used_le hc
    exact ih (hl.effect h hpolicy he) (h.effect he)

end Laid

theorem laid_of_reachable (hpolicy : limits.growth = .relocate) (h : Reachable limits v) :
    Laid v := by
  obtain ⟨cs, hrun⟩ := exists_run_of_reachable h
  exact (laid_ofLimits limits).run (sound_of_reachable .start) hpolicy hrun

/-! ### The cursor -/

theorem Effect.used_le (he : Effect v c w) (hc : c ≠ .reset) : v.arena.used ≤ w.arena.used := by
  cases he with
  | filed => exact Nat.le_add_right ..
  | rewritten _ _ _ _ hplace _ => exact hplace.used_le
  | reset => exact absurd rfl hc
  | _ => exact Nat.le_refl _

/-- Nothing but dropping everything takes space back. -/
theorem Run.used_le {cs : List Change} (h : Sound limits v) (hrun : Run v cs w)
    (hcs : .reset ∉ cs) : v.arena.used ≤ w.arena.used := by
  induction hrun with
  | done => exact Nat.le_refl _
  | step hc _ ih =>
    have he := effect_of_ok h.used_le hc
    rw [List.mem_cons, not_or] at hcs
    exact (he.used_le (Ne.symm hcs.1)).trans (ih (h.effect he) hcs.2)

/-- How far the cursor moves when content of `size` bytes is written to a canonical path. -/
def demand (v : Volume) (c : String) (size : Nat) : Nat :=
  match v.table.find? c with
  | none => size
  | some e => if e.extent.length < size then size else 0

theorem used_of_write (hpolicy : v.limits.growth = .relocate) {path : String} {bytes : Bytes}
    (he : Effect v (.write path bytes) w) :
    w.arena.used = v.arena.used + v.demand (Path.normalize path) bytes.length := by
  unfold demand
  cases he with
  | filed _ _ _ hnew =>
    rw [hnew]
    rfl
  | rewritten _ _ hfound _ hplace _ =>
    rw [hfound]
    dsimp only
    cases hplace with
    | keep hfit =>
      rw [if_neg (Nat.not_lt.mpr hfit)]
      rfl
    | inPlace _ hin => exact absurd (hpolicy.symm.trans hin) (by decide)
    | relocate hgrow =>
      rw [if_pos hgrow]
      rfl

/-! ### Every reachable volume -/

theorem Laid.pairwise (hl : Laid v) (hd : v.table.Distinct) :
    (v.table.entries.map Entry.extent).Pairwise Extent.Apart := by
  rw [List.pairwise_map]
  have hpaths : v.table.entries.Pairwise fun d e => d.path ≠ e.path := List.pairwise_map.mp hd
  exact hpaths.imp_of_mem fun hd he hne => hl.apart _ hd _ he hne

/-- In a volume that relocates, every extent holds its content and ends at or before the cursor,
the extents of different entries have no byte in common and fit side by side into what was handed
out, and the cursor moves on by exactly what a write needs. -/
theorem extents_apart_below_cursor (hpolicy : limits.growth = .relocate)
    (h : Reachable limits v) :
    (∀ e ∈ v.table.entries, e.size ≤ e.extent.length ∧
        e.extent.offset + e.extent.length ≤ v.arena.used) ∧
      v.arena.used ≤ v.arena.capacity ∧ v.arena.capacity = limits.arenaCapacity ∧
      v.table.entries.Pairwise (fun d e => ∀ i,
        ¬ ((d.extent.offset ≤ i ∧ i < d.extent.offset + d.extent.length) ∧
          e.extent.offset ≤ i ∧ i < e.extent.offset + e.extent.length)) ∧
      (v.table.entries.map fun e => e.extent.length).sum ≤ v.usage.bytesUsed ∧
      v.usage.bytesUsed + v.usage.bytesFree = limits.arenaCapacity ∧
      (∀ r, r ≠ .reset → v.arena.used ≤ (v.answer r).2.arena.used) ∧
      ∀ path bytes, (v.write path bytes).1 = .ok () →
        (v.write path bytes).2.arena.used =
          v.arena.used + v.demand (Path.normalize path) bytes.length := by
  have hs := sound_of_reachable h
  have hl := laid_of_reachable hpolicy h
  have hpairs := hl.pairwise hs.distinct
  refine ⟨?_, hs.used_le, hs.capacity_eq, ?_, ?_, ?_, ?_, ?_⟩
  · exact fun e he => ⟨(hs.entries e he).size_le_length, hl.below e he⟩
  · exact (List.pairwise_map.mp hpairs).imp fun hapart => hapart.not_both
  · have hbelow : ∀ x ∈ v.table.entries.map Entry.extent, x.stop ≤ v.arena.used := by
      intro x hx
      obtain ⟨e, he, rfl⟩ := List.mem_map.mp hx
      exact hl.below e he
    have hsum := sum_length_le hbelow hpairs
    rwa [List.map_map] at hsum
  · have hused := hs.used_le
    have hcap := hs.capacity_eq
    show v.arena.used + (v.arena.capacity - v.arena.used) = _
    omega
  · exact fun r hr => (hs.run_answer r).used_le hs (reset_not_mem_changes hr)
  · intro path bytes hok
    rcases write_effect hs.used_le path bytes with ⟨e, he⟩ | ⟨w, hw, heffect⟩
    · rw [he] at hok
      exact absurd hok (by simp)
    · rw [hw]
      exact used_of_write (hs.limits_eq ▸ hpolicy) heffect

/-- A file that outgrew its extent leaves two bytes behind: three extents of five bytes in all lie
in six bytes handed out. -/
theorem extents_after_relocation :
    let v := ((ofLimits ⟨4, 8, 16, 16, .relocate⟩).serve
      [.create "/d" true, .write "/a" [1, 2], .write "/d/b" [3], .write "/a" [4, 5, 6]]).2
    v.table.entries.map (fun e => (e.path, e.extent)) =
        [("/", ⟨0, 0⟩), ("/d", ⟨0, 0⟩), ("/a", ⟨3, 3⟩), ("/d/b", ⟨2, 1⟩)] ∧
      v.arena.used = 6 ∧
      (v.table.entries.map fun e => e.extent.length).sum ≤ v.usage.bytesUsed ∧
      v.usage.bytesUsed + v.usage.bytesFree = 16 := by
  intro v
  have h : Reachable ⟨4, 8, 16, 16, .relocate⟩ v := Reachable.serve .start _
  have hall := extents_apart_below_cursor rfl h
  exact ⟨by decide, by decide, hall.2.2.2.2.1, hall.2.2.2.2.2.1⟩

end RamShell.Volume
