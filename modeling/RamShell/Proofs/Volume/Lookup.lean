import Mathlib.Data.List.Perm.Basic
import Mathlib.Data.List.Nodup
import RamShell.Volume.Table
/-!
# RamShell.Proofs.Volume.Lookup

The entry table as a map from paths to entries. The table is a list, and its operations are
described by positions: append, change the first match, move the last entry into a hole. In a
table whose paths are distinct none of this shows. An entry is found exactly if it is in the list
(`find?_eq_some_iff`), and `insert`, `update` and `without` act on what is found like the
operations of a map.
-/

namespace RamShell.Volume.Table

variable {t : Table} {c q : String} {e : Entry} {f : Entry → Entry}

/-- No two entries of the table have the same path. -/
def Distinct (t : Table) : Prop := (t.entries.map Entry.path).Nodup

/-- The table with one more entry at its end. -/
def insert (t : Table) (e : Entry) : Table := { t with entries := t.entries ++ [e] }

/-- The table without the entry of a path, whose place the last entry takes. -/
def without (t : Table) (c : String) : Table :=
  { t with entries := removeAt t.entries (t.entries.findIdx (·.path == c)) }

/-! ### Finding -/

theorem find?_eq_none_iff : t.find? q = none ↔ ∀ e ∈ t.entries, e.path ≠ q := by
  simp [find?]

/-- With distinct paths the entry of a path is the only one that has it. -/
theorem find?_eq_some_iff (ht : t.Distinct) : t.find? q = some e ↔ e ∈ t.entries ∧ e.path = q := by
  constructor
  · exact fun h => ⟨mem_of_find? h, path_of_find? h⟩
  · rintro ⟨he, rfl⟩
    cases hf : t.find? e.path with
    | none => exact absurd rfl (find?_eq_none_iff.mp hf e he)
    | some d =>
      rw [List.inj_on_of_nodup_map ht (mem_of_find? hf) he (path_of_find? hf)]

theorem find?_of_mem (ht : t.Distinct) (he : e ∈ t.entries) : t.find? e.path = some e :=
  (find?_eq_some_iff ht).mpr ⟨he, rfl⟩

theorem exists_path_iff (ht : t.Distinct) {p : Entry → Prop} :
    (∃ e ∈ t.entries, e.path = c ∧ p e) ↔ ∃ e, t.find? c = some e ∧ p e := by
  simp only [find?_eq_some_iff ht, and_assoc]

theorem contains_iff : t.contains q = true ↔ ∃ e, t.find? q = some e := by
  rw [contains, Option.isSome_iff_exists]

/-! ### One more entry -/

/-- A new entry is inserted if its path is new and short enough and a slot is free. -/
theorem create_eq_insert {isDirectory : Bool} {offset tick : Nat} (hpath : c ≠ "")
    (hshort : c.utf8ByteSize ≤ t.maxPathLength) (hnew : t.find? c = none)
    (hslot : t.size < t.capacity) :
    t.create c isDirectory offset tick =
      (.ok (.empty c isDirectory offset tick), t.insert (.empty c isDirectory offset tick)) := by
  have hdup : ¬ t.contains c = true := by simp [contains, hnew]
  have hfull : ¬ t.isFull = true := by simpa [isFull] using hslot
  unfold create
  rw [if_neg (by simpa using hpath), if_neg (Nat.not_lt.mpr hshort), if_neg hdup, if_neg hfull]
  rfl

/-- Creating is refused, and leaves the table as it was, unless all these conditions hold. -/
theorem create_cases (t : Table) (c : String) (isDirectory : Bool) (offset tick : Nat) :
    (∃ err, t.create c isDirectory offset tick = (.error err, t)) ∨
      (c ≠ "" ∧ c.utf8ByteSize ≤ t.maxPathLength ∧ t.find? c = none ∧ t.size < t.capacity) := by
  unfold create
  by_cases hempty : c.isEmpty = true
  · exact Or.inl ⟨_, if_pos hempty⟩
  rw [if_neg hempty]
  by_cases hlong : t.maxPathLength < c.utf8ByteSize
  · exact Or.inl ⟨_, if_pos hlong⟩
  rw [if_neg hlong]
  by_cases hdup : t.contains c = true
  · exact Or.inl ⟨_, if_pos hdup⟩
  rw [if_neg hdup]
  by_cases hfull : t.isFull = true
  · exact Or.inl ⟨_, if_pos hfull⟩
  right
  refine ⟨by simpa using hempty, Nat.le_of_not_lt hlong, ?_, by simpa [isFull] using hfull⟩
  simpa [contains] using hdup

theorem find?_insert (h : t.find? e.path = none) (q : String) :
    (t.insert e).find? q = if q = e.path then some e else t.find? q := by
  have hshow : (t.insert e).find? q = (t.find? q).or (if e.path = q then some e else none) := by
    simp [insert, find?, List.find?_append, List.find?_singleton]
  rw [hshow]
  by_cases hq : q = e.path
  · subst hq
    simp [h]
  · rw [if_neg hq, if_neg (Ne.symm hq), Option.or_none]

theorem mem_insert {d : Entry} : d ∈ (t.insert e).entries ↔ d ∈ t.entries ∨ d = e := by
  simp [insert]

theorem distinct_insert (ht : t.Distinct) (h : t.find? e.path = none) : (t.insert e).Distinct := by
  have hnew : e.path ∉ t.entries.map Entry.path := by
    simpa using find?_eq_none_iff.mp h
  rw [Distinct, insert, List.map_append]
  exact List.nodup_append.mpr ⟨ht, by simp, by simpa using hnew⟩

/-! ### A changed entry -/

theorem find?_modifyFirst (hf : ∀ e, (f e).path = e.path) (es : List Entry) (c q : String) :
    (modifyFirst (·.path == c) f es).find? (·.path == q) =
      if q = c then (es.find? (·.path == q)).map f else es.find? (·.path == q) := by
  induction es with
  | nil => simp [modifyFirst]
  | cons e es ih =>
    rw [modifyFirst]
    by_cases hc : e.path = c
    · by_cases hq : e.path = q
      · simp [hc, ← hq, hf]
      · have hcq : q ≠ c := fun h => hq (hc.trans h.symm)
        simp [hc, hf, hcq, Ne.symm hcq]
    · by_cases hq : e.path = q
      · subst hq
        simp [hc]
      · simp [hc, hq, ih]

/-- Changing an entry shows under its own path and under no other. -/
theorem find?_update (hf : ∀ e, (f e).path = e.path) (c q : String) :
    (t.update c f).find? q = if q = c then (t.find? q).map f else t.find? q :=
  find?_modifyFirst hf t.entries c q

/-- What a change keeps of every entry, it keeps of the list. -/
theorem map_modifyFirst {β : Type} {g : Entry → β} (hf : ∀ e, g (f e) = g e) (p : Entry → Bool)
    (es : List Entry) : (modifyFirst p f es).map g = es.map g := by
  induction es with
  | nil => rfl
  | cons e es ih =>
    rw [modifyFirst]
    split
    · simp [hf]
    · simp [ih]

theorem distinct_update (ht : t.Distinct) (hf : ∀ e, (f e).path = e.path) :
    (t.update c f).Distinct := by
  rw [Distinct, update, map_modifyFirst hf]
  exact ht

theorem length_update (t : Table) (c : String) (f : Entry → Entry) :
    (t.update c f).entries.length = t.entries.length := by
  rw [update]
  induction t.entries with
  | nil => rfl
  | cons e es ih =>
    rw [modifyFirst]
    split
    · rfl
    · simpa using ih

/-- With distinct paths the entries after a change are the changed one and the others. -/
theorem mem_update (ht : t.Distinct) (hf : ∀ e, (f e).path = e.path) (he : t.find? c = some e)
    {d : Entry} : d ∈ (t.update c f).entries ↔ d = f e ∨ (d ∈ t.entries ∧ d.path ≠ c) := by
  -- Being an entry is being found under its own path, and lookups after an update are known.
  have hd := find?_eq_some_iff (distinct_update (c := c) ht hf) (q := d.path) (e := d)
  have hold := find?_eq_some_iff ht (q := d.path) (e := d)
  rw [find?_update hf] at hd
  by_cases hc : d.path = c
  · simp only [hc, if_true, he, Option.map_some, Option.some.injEq, and_true, ne_eq,
      not_true_eq_false, and_false, or_false] at hd ⊢
    exact hd.symm.trans eq_comm
  · have hne : d ≠ f e := by
      rintro rfl
      exact hc ((hf e).trans (path_of_find? he))
    simp only [hc, if_false, and_true, hne, false_or, ne_eq, not_false_eq_true] at hd hold ⊢
    exact hd.symm.trans hold

/-- What comes before the first match is passed over. -/
theorem modifyFirst_append {p : Entry → Bool} {front rest : List Entry}
    (h : ∀ d ∈ front, p d = false) (f : Entry → Entry) :
    modifyFirst p f (front ++ rest) = front ++ modifyFirst p f rest := by
  induction front with
  | nil => rfl
  | cons d front ih =>
    rw [List.cons_append, modifyFirst, h d (List.mem_cons_self ..), if_neg Bool.false_ne_true,
      ih fun b hb => h b (List.mem_cons_of_mem _ hb)]
    rfl

/-- Changing an entry leaves it in its place, and all others as they are. -/
theorem entries_update (he : t.find? c = some e) (f : Entry → Entry) :
    ∃ front rest, t.entries = front ++ e :: rest ∧
      (t.update c f).entries = front ++ f e :: rest := by
  obtain ⟨hpath, front, rest, hentries, hfront⟩ := List.find?_eq_some_iff_append.mp he
  refine ⟨front, rest, hentries, ?_⟩
  show modifyFirst _ f t.entries = _
  rw [hentries, modifyFirst_append (fun d hd => by simpa using hfront d hd), modifyFirst,
    if_pos hpath]

/-- Changing the entry that was inserted last is inserting the changed entry. -/
theorem update_insert (hnew : t.find? e.path = none) (f : Entry → Entry) :
    (t.insert e).update e.path f = t.insert (f e) := by
  have hfront : ∀ d ∈ t.entries, (d.path == e.path) = false := by
    intro d hd
    exact beq_eq_false_iff_ne.mpr (find?_eq_none_iff.mp hnew d hd)
  rw [update, insert, modifyFirst_append hfront, modifyFirst, if_pos (beq_self_eq_true e.path)]
  rfl

/-- The first entry stays first, and is changed if it is the one that is changed. -/
theorem head?_update (t : Table) (c : String) (f : Entry → Entry) :
    (t.update c f).entries.head? =
      t.entries.head?.map fun e => if e.path = c then f e else e := by
  rw [update]
  cases t.entries with
  | nil => rfl
  | cons e es =>
    rw [modifyFirst]
    by_cases hc : e.path = c <;> simp [hc]

/-! ### One entry fewer -/

/-- Moving the last element into a hole keeps what is around it. -/
theorem removeAt_perm {es : List Entry} {i : Nat} (h : i < es.length) :
    (removeAt es i).Perm (es.eraseIdx i) := by
  have hne : es ≠ [] := List.ne_nil_of_length_pos (by omega)
  obtain ⟨front, last, rfl⟩ : ∃ front last, es = front ++ [last] :=
    ⟨_, _, (List.dropLast_concat_getLast hne).symm⟩
  rw [removeAt, List.getLast?_concat]
  show (((front ++ [last]).set i last).dropLast).Perm _
  rw [List.length_append, List.length_singleton] at h
  -- Either the last element fills a hole before it, or it is itself taken out.
  by_cases hi : i < front.length
  · rw [List.set_append_left _ _ hi, List.dropLast_concat, List.eraseIdx_append_of_lt_length hi]
    exact (List.set_perm_cons_eraseIdx hi last).trans (List.perm_append_singleton ..).symm
  · obtain rfl : i = front.length := by omega
    simp [List.eraseIdx_append_of_length_le]

theorem getElem?_findIdx (he : t.find? c = some e) :
    t.entries[t.entries.findIdx (·.path == c)]? = some e := by
  rw [← List.find?_eq_getElem?_findIdx]
  exact he

/-- Deleting the entry of a path other than the root takes it out of the table. -/
theorem delete_eq_ok (hc : c ≠ Path.root) (he : t.find? c = some e) :
    t.delete c = (.ok e, t.without c) := by
  obtain ⟨hlt, -⟩ := List.getElem?_eq_some_iff.mp (getElem?_findIdx he)
  have hidx : t.entries.findIdx? (·.path == c) = some (t.entries.findIdx (·.path == c)) :=
    List.findIdx?_eq_some_iff_findIdx_eq.mpr ⟨hlt, rfl⟩
  rw [delete, if_neg hc, he, hidx]
  rfl

/-- The entries are the one taken out and those left. -/
theorem perm_cons_without (he : t.find? c = some e) :
    t.entries.Perm (e :: (t.without c).entries) := by
  obtain ⟨hlt, rfl⟩ := List.getElem?_eq_some_iff.mp (getElem?_findIdx he)
  exact (List.getElem_cons_eraseIdx_perm hlt).symm.trans ((removeAt_perm hlt).symm.cons _)

theorem length_without (he : t.find? c = some e) :
    (t.without c).entries.length + 1 = t.entries.length := by
  rw [(perm_cons_without he).length_eq, List.length_cons]

/-- No entry left has the path of the one taken out, and the paths left are distinct. -/
theorem nodup_cons_without (ht : t.Distinct) (he : t.find? c = some e) :
    c ∉ (t.without c).entries.map Entry.path ∧ (t.without c).Distinct := by
  have h := ((perm_cons_without he).map Entry.path).nodup_iff.mp ht
  rw [List.map_cons, path_of_find? he] at h
  exact List.nodup_cons.mp h

/-- With distinct paths the entries left are those with another path. -/
theorem mem_without (ht : t.Distinct) (he : t.find? c = some e) {d : Entry} :
    d ∈ (t.without c).entries ↔ d ∈ t.entries ∧ d.path ≠ c := by
  have hc := (nodup_cons_without ht he).1
  rw [(perm_cons_without he).mem_iff, List.mem_cons]
  constructor
  · intro hd
    exact ⟨Or.inr hd, fun h => hc (List.mem_map.mpr ⟨d, hd, h⟩)⟩
  · rintro ⟨rfl | hd, hne⟩
    · exact absurd (path_of_find? he) hne
    · exact hd

/-- Taking out an entry shows under its own path and under no other. -/
theorem find?_without (ht : t.Distinct) (he : t.find? c = some e) (q : String) :
    (t.without c).find? q = if q = c then none else t.find? q := by
  by_cases hq : q = c
  · rw [if_pos hq, find?_eq_none_iff, hq]
    exact fun d hd => ((mem_without ht he).mp hd).2
  · rw [if_neg hq]
    ext d
    rw [find?_eq_some_iff (nodup_cons_without ht he).2, find?_eq_some_iff ht, mem_without ht he]
    constructor
    · rintro ⟨⟨hd, -⟩, hdq⟩
      exact ⟨hd, hdq⟩
    · rintro ⟨hd, hdq⟩
      exact ⟨⟨hd, fun h => hq (hdq.symm.trans h)⟩, hdq⟩

/-- The first entry stays first as long as it is not the one taken out. -/
theorem head?_without {first : Entry} (h : t.entries.head? = some first) (hc : first.path ≠ c)
    (he : t.find? c = some e) : (t.without c).entries.head? = some first := by
  obtain ⟨rest, hes⟩ : ∃ rest, t.entries = first :: rest := List.head?_eq_some_iff.mp h
  -- The first entry has another path, so what is taken out lies in the rest.
  have hidx : t.entries.findIdx (·.path == c) = rest.findIdx (·.path == c) + 1 := by
    rw [hes, List.findIdx_cons, beq_eq_false_iff_ne.mpr hc, cond_false]
  obtain ⟨hlt, -⟩ := List.getElem?_eq_some_iff.mp (getElem?_findIdx he)
  rw [hidx, hes, List.length_cons] at hlt
  obtain ⟨last, hlast⟩ : ∃ last, (first :: rest).getLast? = some last :=
    Option.isSome_iff_exists.mp (by simp)
  show (removeAt t.entries _).head? = _
  rw [hidx, hes, removeAt, hlast]
  have hrest : (rest.set (rest.findIdx (·.path == c)) last) ≠ [] :=
    List.ne_nil_of_length_pos (by rw [List.length_set]; omega)
  show ((first :: rest.set _ last).dropLast).head? = _
  rw [List.dropLast_cons_of_ne_nil hrest]
  rfl

end RamShell.Volume.Table
