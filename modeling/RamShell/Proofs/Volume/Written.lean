import RamShell.Proofs.Volume.Extents
import RamShell.Proofs.Volume.Stored
/-!
# RamShell.Proofs.Volume.Written

What a write does and how far it reaches. A write goes one of four ways: to a new file, into the
extent that a file has, to a new extent, or past the end of the old one. `Written` says what all of
them come to: one record is put into the table, and the bytes that this record covers are the ones
that were written, while the rest of the arena is as it was.

How another file reads after the write is then a matter of which bytes it shares with the new record
(`Written.getD_span`). Nothing is assumed about how extents lie, so this is also the damage that is
done where a file grows over its neighbours. The main statement is
`write_changes_one_record_and_its_bytes`.
-/

namespace RamShell.Volume

/-! ### What a write leaves -/

/-- Whether the content of an entry lies over an index of the arena. -/
def Entry.Covers (e : Entry) (i : Nat) : Prop :=
  e.extent.offset ≤ i ∧ i < e.extent.offset + e.size

instance (e : Entry) (i : Nat) : Decidable (e.Covers i) :=
  inferInstanceAs (Decidable (_ ∧ _))

/-- The entries before and after a record was put under its path. -/
inductive Recorded (e : Entry) : List Entry → List Entry → Prop
  /-- The path was new, and the record stands last. -/
  | appended {es : List Entry} (hnew : ∀ d ∈ es, d.path ≠ e.path) : Recorded e es (es ++ [e])
  /-- The record takes the place of the one that had the path. It keeps the tick at which this was
  made, and its permissions. -/
  | replaced {front rest : List Entry} {old : Entry} (hpath : old.path = e.path)
      (hcreated : e.createdTick = old.createdTick) (hmode : e.permissions = old.permissions) :
      Recorded e (front ++ old :: rest) (front ++ e :: rest)

namespace Recorded

variable {e d : Entry} {es es' : List Entry}

theorem mem (h : Recorded e es es') : e ∈ es' := by
  cases h <;> simp

/-- The records of all other paths stay. -/
theorem mem_of_ne (h : Recorded e es es') (hd : d ∈ es) (hne : d.path ≠ e.path) : d ∈ es' := by
  cases h with
  | appended => exact List.mem_append_left _ hd
  | replaced hpath =>
    rcases List.mem_append.mp hd with hd | hd
    · exact List.mem_append_left _ hd
    · rcases List.mem_cons.mp hd with rfl | hd
      · exact absurd hpath hne
      · exact List.mem_append_right _ (List.mem_cons_of_mem _ hd)

end Recorded

/-- What a write of `bytes` leaves of a volume `v`: the volume `w` with a record `e` of the file. -/
structure Written (v : Volume) (bytes : Bytes) (e : Entry) (w : Volume) : Prop where
  /-- The record is one of a file. -/
  file : e.isDirectory = false
  /-- The record has the length of the bytes. -/
  size : e.size = bytes.length
  /-- No other record changes. -/
  records : Recorded e v.table.entries w.table.entries
  /-- The arena keeps its size. -/
  capacity : w.arena.capacity = v.arena.capacity
  /-- The bytes lie where the record says, and nothing else changes in the arena. -/
  byteAt : ∀ i, w.arena.byteAt i =
    if e.Covers i then bytes.getD (i - e.extent.offset) 0 else v.arena.byteAt i

variable {limits : Limits} {v w : Volume} {path : String} {bytes : Bytes} {e : Entry}

/-- Space that is handed out keeps its bytes. -/
theorem Placement.byteAt_eq {x place : Extent} {size : Nat} {arena : Arena}
    (h : Placement v x size place arena) (i : Nat) : arena.byteAt i = v.arena.byteAt i := by
  cases h <;> rfl

/-- Every way of writing comes to the same. -/
theorem Effect.written (h : Effect v (.write path bytes) w) :
    ∃ e, e.path = Path.normalize path ∧ Written v bytes e w := by
  cases h with
  | filed hpath hsize hshort hnew =>
    refine ⟨.filled (Path.normalize path) bytes.length v.arena.used (v.tick + 1), rfl, ?_⟩
    exact
      { file := rfl
        size := rfl
        records := .appended (Table.find?_eq_none_iff.mp hnew)
        capacity := rfl
        byteAt := Arena.byteAt_written (v.arena.advanced bytes.length) v.arena.used bytes }
  | @rewritten path bytes e place arena hpath hsize hfound hfile hplace hfit =>
    let record := Entry.withContent bytes.length place (v.tick + 1)
    obtain ⟨front, rest, hentries, hupdated⟩ := Table.entries_update hfound record
    have hrecord : (record e).path = e.path := rfl
    refine ⟨record e, hrecord.trans (Table.path_of_find? hfound), ?_⟩
    exact
      { file := hfile
        size := rfl
        records := by
          rw [hentries, hupdated]
          exact .replaced rfl rfl rfl
        capacity := hplace.capacity_eq
        byteAt := by
          intro i
          rw [← hplace.byteAt_eq]
          exact Arena.byteAt_written arena place.offset bytes i }

namespace Written

/-! ### What files read afterwards -/

/-- What was written is found where the record says. -/
theorem span_self (h : Written v bytes e w)
    (hinside : e.extent.offset + e.size ≤ w.arena.capacity) :
    w.arena.span e.extent.offset e.size = bytes := by
  rw [h.size] at hinside ⊢
  apply Arena.span_eq_of_byteAt
  · omega
  · intro i hi
    have hcovers : e.Covers (e.extent.offset + i) := ⟨by omega, by rw [h.size]; omega⟩
    rw [h.byteAt, if_pos hcovers, Nat.add_sub_cancel_left]

/-- A byte that is read elsewhere is the one that was there, unless it was written over. -/
theorem getD_span (h : Written v bytes e w) {start length i : Nat}
    (hi : i < min length (v.arena.capacity - start)) :
    (w.arena.span start length).getD i 0 =
      if e.Covers (start + i) then bytes.getD (start + i - e.extent.offset) 0
      else (v.arena.span start length).getD i 0 := by
  rw [Arena.getD_span, h.capacity, if_pos hi, h.byteAt, Arena.getD_span, if_pos hi]

/-- What shares no byte with the record reads as before. -/
theorem span_of_apart (h : Written v bytes e w) {start length : Nat}
    (hapart : ∀ i, start ≤ i → i < start + length → ¬ e.Covers i) :
    w.arena.span start length = v.arena.span start length := by
  apply Arena.span_eq_of_byteAt
  · rw [Arena.length_span, h.capacity]
  · intro i hi
    rw [Arena.length_span] at hi
    have hnot := hapart (start + i) (by omega) (by omega)
    rw [h.byteAt, if_neg hnot, Arena.getD_span, if_pos hi]

end Written

/-- The file that was written reads as what was written, under every spelling of its path. -/
theorem Sound.reads_written (hs : Sound limits w) (h : Written v bytes e w) {q : String}
    (hq : q ≠ "") (hplace : e.path = Path.normalize q) :
    w.readAll q = .ok bytes ∧ w.sizeAt q = bytes.length ∧
      ∀ buffer, w.read q buffer =
        .ok (min buffer.length bytes.length,
          bytes.take (min buffer.length bytes.length) ++
            buffer.drop (min buffer.length bytes.length)) := by
  have hmem := h.records.mem
  have hfound := hs.find?_of_path hmem hq hplace
  have hinside : e.extent.offset + e.size ≤ w.arena.capacity := by
    have hentry := hs.entries e hmem
    have hfits := hentry.size_le_length
    have hextent := hentry.inside
    rw [hs.capacity_eq]
    omega
  have hread : w.readAll q = .ok bytes := by
    rw [readAll_of_file hfound h.file, h.span_self hinside]
  refine ⟨hread, ?_, ?_⟩
  · rw [sizeAt, hfound]
    exact h.size
  · intro buffer
    rw [hs.read_eq_ok hfound hread, h.size, Nat.min_comm]
    rcases Nat.le_total bytes.length buffer.length with hle | hle
    · rw [Nat.min_eq_right hle, List.take_of_length_le hle, List.take_length]
    · rw [Nat.min_eq_left hle, List.drop_of_length_le hle, List.drop_length]

/-- Every other file keeps its record, and reads as before but for the bytes that the new record
covers. -/
theorem Sound.reads_beside_written (hw : Sound limits w)
    (h : Written v bytes e w) {q : String} {d : Entry} (hfound : v.find? q = some d)
    (hne : Path.normalize q ≠ e.path) (hfile : d.isDirectory = false) :
    w.find? q = some d ∧
      ∃ old new, v.readAll q = .ok old ∧ w.readAll q = .ok new ∧ new.length = old.length ∧
        (∀ i < old.length, new.getD i 0 =
          if e.Covers (d.extent.offset + i) then
            bytes.getD (d.extent.offset + i - e.extent.offset) 0
          else old.getD i 0) ∧
        ((∀ i, ¬ (d.Covers i ∧ e.Covers i)) → new = old) := by
  obtain ⟨hq, hrecord⟩ := find?_eq_some_iff.mp hfound
  have hpath := Table.path_of_find? hrecord
  have hkept : w.find? q = some d :=
    hw.find?_of_path (h.records.mem_of_ne (Table.mem_of_find? hrecord) (hpath ▸ hne)) hq hpath
  refine ⟨hkept, _, _, readAll_of_file hfound hfile, readAll_of_file hkept hfile, ?_, ?_, ?_⟩
  · rw [Arena.length_span, Arena.length_span, h.capacity]
  · intro i hi
    rw [Arena.length_span] at hi
    exact h.getD_span hi
  · intro hapart
    apply h.span_of_apart
    intro i hstart hstop hcovers
    exact hapart i ⟨⟨hstart, hstop⟩, hcovers⟩

/-- In a volume that relocates, two entries cover no byte together. -/
theorem Laid.not_covers_both (hl : Laid v) (hs : Sound limits v) {d : Entry}
    (hd : d ∈ v.table.entries) (he : e ∈ v.table.entries) (hne : d.path ≠ e.path) (i : Nat) :
    ¬ (d.Covers i ∧ e.Covers i) := by
  intro hboth
  have hdsize := (hs.entries d hd).size_le_length
  have hesize := (hs.entries e he).size_le_length
  obtain ⟨⟨hd₁, hd₂⟩, he₁, he₂⟩ := hboth
  exact (hl.apart d hd e he hne).not_both i ⟨⟨hd₁, by omega⟩, he₁, by omega⟩

/-! ### Every reachable volume -/

/-- In every reachable volume and under both growth policies, a write that succeeds puts one record
into the table and its bytes where this record says, and touches nothing else. The file reads as
what was written, under every spelling of its path. Every other file keeps its record and reads as
before, overlaid with the bytes written at exactly the places that the two have in common; if there
are none it reads as before, and if the volume relocates there never are any. -/
theorem write_changes_one_record_and_its_bytes (h : Reachable limits v)
    (hok : v.write path bytes = (.ok (), w)) :
    path ≠ "" ∧ ∃ e, e.path = Path.normalize path ∧ e.isDirectory = false ∧
      e.size = bytes.length ∧ Recorded e v.table.entries w.table.entries ∧
      (∀ q, q ≠ "" → Path.normalize q = Path.normalize path →
        w.readAll q = .ok bytes ∧ w.sizeAt q = bytes.length ∧
        ∀ buffer, w.read q buffer =
          .ok (min buffer.length bytes.length,
            bytes.take (min buffer.length bytes.length) ++
              buffer.drop (min buffer.length bytes.length))) ∧
      w.arena.capacity = v.arena.capacity ∧
      (∀ i, w.arena.byteAt i =
        if e.Covers i then bytes.getD (i - e.extent.offset) 0 else v.arena.byteAt i) ∧
      ∀ q d, Path.normalize q ≠ Path.normalize path → v.find? q = some d → d.isDirectory = false →
        w.find? q = some d ∧
        (∃ old new, v.readAll q = .ok old ∧ w.readAll q = .ok new ∧ new.length = old.length ∧
          (∀ i < old.length, new.getD i 0 =
            if e.Covers (d.extent.offset + i) then
              bytes.getD (d.extent.offset + i - e.extent.offset) 0
            else old.getD i 0) ∧
          ((∀ i, ¬ (d.Covers i ∧ e.Covers i)) → new = old)) ∧
        (limits.growth = .relocate → ∀ i, ¬ (d.Covers i ∧ e.Covers i)) := by
  have hv := sound_of_reachable h
  have heffect : Effect v (.write path bytes) w := effect_of_ok hv.used_le hok
  have hwreach : Reachable limits w := by
    have hstep := h.step (.write path bytes)
    rwa [answer, Reply.ofResult, hok] at hstep
  have hw := sound_of_reachable hwreach
  have hpath : path ≠ "" := by cases heffect <;> assumption
  obtain ⟨e, hplace, hwritten⟩ := heffect.written
  refine ⟨hpath, e, hplace, hwritten.file, hwritten.size, hwritten.records, ?_, hwritten.capacity,
    hwritten.byteAt, ?_⟩
  · intro q hq hsame
    exact hw.reads_written hwritten hq (hplace.trans hsame.symm)
  · intro q d hother hfound hfile
    obtain ⟨hkept, hreads⟩ :=
      hw.reads_beside_written hwritten hfound (hplace ▸ hother) hfile
    refine ⟨hkept, hreads, ?_⟩
    intro hpolicy
    have hne : d.path ≠ e.path := by
      rw [Table.path_of_find? (find?_eq_some_iff.mp hfound).2, hplace]
      exact hother
    exact (laid_of_reachable hpolicy hwreach).not_covers_both hw (mem_of_find?_eq_some hkept)
      hwritten.records.mem hne

/-- A file that grows in place by one byte takes it from its neighbour, whatever path it is written
under, and leaves the file behind that one alone. -/
theorem neighbour_after_growth_in_place :
    let v := ((ofLimits ⟨8, 8, 8, 9, .inPlace⟩).serve
      [.write "/a" [1, 2], .write "/b" [3, 4, 5], .write "/c" [6]]).2
    let w := (v.write "x/..//a" [7, 8, 9]).2
    v.write "x/..//a" [7, 8, 9] = (.ok (), w) ∧
      w.readAll "/a" = .ok [7, 8, 9] ∧ w.read "a/." [0, 0] = .ok (2, [7, 8]) ∧
      w.read "/a" [0, 0, 0, 0] = .ok (3, [7, 8, 9, 0]) ∧
      v.readAll "/b" = .ok [3, 4, 5] ∧ w.readAll "/b" = .ok [9, 4, 5] ∧
      w.find? "/c" = v.find? "/c" ∧ w.readAll "/c" = .ok [6] := by
  intro v w
  have hv : Reachable ⟨8, 8, 8, 9, .inPlace⟩ v := Reachable.serve .start _
  have hok : v.write "x/..//a" [7, 8, 9] = (.ok (), w) := by decide
  obtain ⟨-, e, -, -, -, -, hself, -, -, hothers⟩ :=
    write_changes_one_record_and_its_bytes hv hok
  have hc : v.find? "/c" = some (.filled "/c" 1 5 4) := by decide
  obtain ⟨hkept, -⟩ := hothers "/c" _ (by decide) hc rfl
  obtain ⟨hread, -, hbuffer⟩ := hself "/a" (by decide) (by decide)
  obtain ⟨-, -, hspelled⟩ := hself "a/." (by decide) (by decide)
  exact ⟨hok, hread, hspelled [0, 0], hbuffer [0, 0, 0, 0], by decide, by decide,
    hkept.trans hc.symm, by decide⟩

end RamShell.Volume
