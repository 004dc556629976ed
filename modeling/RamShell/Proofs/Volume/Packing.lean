import Mathlib.Data.List.TakeWhile
import RamShell.Proofs.Text.Utf8
import RamShell.Proofs.Volume.Children
/-!
# RamShell.Proofs.Volume.Packing

Packing a listing into a buffer. The check that is made before a name asks for its plain length and
two bytes more; what is put down is the name as it is listed and a line end. The two come to the
same only because a listed name has at most one slash at its end (`Tidy`), so the check leaves the
room that is needed and no store goes past the end of the buffer (`lay?_append`).

`pack?` is the packing as it is carried out: one name after the other is stored behind the last,
each store is checked against the end of the buffer, and the line end stored last is then replaced
by the NUL. It does not fail, and it leaves what `write` says (`pack?_eq_write`). The main statement
is `write_is_clean_prefix`.
-/

namespace RamShell.Volume.Listing

/-! ### What fits -/

/-- A name with at most one slash at its end. -/
def Tidy (name : String) : Prop := ¬ ['/', '/'] <:+ name.toList

instance (name : String) : Decidable (Tidy name) := inferInstanceAs (Decidable (¬ _))

/-- The bytes that names take up, each with a line end behind it. -/
def taken : List String → Nat
  | [] => 0
  | name :: names => (Text.encode name).length + 1 + taken names

/-- Whether there are `k` names and `room` for each of them behind those in front of it: for its
plain length and two bytes more. -/
def Admits (room : Nat) (names : List String) (k : Nat) : Prop :=
  k ≤ names.length ∧
    ∀ i < k, ∀ name, names[i]? = some name → taken (names.take i) + plainLength name + 2 ≤ room

section Room

variable {room : Nat} {name : String} {names : List String} {k : Nat}

@[simp] theorem taken_nil : taken [] = 0 := rfl

@[simp] theorem taken_cons (name : String) (names : List String) :
    taken (name :: names) = (Text.encode name).length + 1 + taken names := rfl

theorem fitting_cons_of_le (h : plainLength name + 2 ≤ room) (names : List String) :
    fitting room (name :: names) =
      name :: fitting (room - ((Text.encode name).length + 1)) names := by
  rw [fitting, if_pos h]

theorem fitting_cons_of_lt (h : room < plainLength name + 2) (names : List String) :
    fitting room (name :: names) = [] := by
  rw [fitting, if_neg (Nat.not_le.mpr h)]

theorem admits_zero (room : Nat) (names : List String) : Admits room names 0 :=
  ⟨Nat.zero_le _, fun _ hi => absurd hi (Nat.not_lt_zero _)⟩

/-- One more name in front. -/
theorem admits_cons_succ :
    Admits room (name :: names) (k + 1) ↔
      plainLength name + 2 ≤ room ∧ Admits (room - ((Text.encode name).length + 1)) names k := by
  constructor
  · rintro ⟨hlength, hroom⟩
    have hfirst : plainLength name + 2 ≤ room := by
      simpa using hroom 0 (Nat.succ_pos k) name rfl
    refine ⟨hfirst, Nat.le_of_succ_le_succ hlength, ?_⟩
    intro i hi other hother
    have hnext := hroom (i + 1) (Nat.succ_lt_succ hi) other (by simpa using hother)
    rw [List.take_succ_cons, taken_cons] at hnext
    omega
  · rintro ⟨hfirst, hlength, hroom⟩
    refine ⟨Nat.succ_le_succ hlength, ?_⟩
    intro i hi other hother
    cases i with
    | zero =>
      obtain rfl : name = other := by simpa using hother
      simpa using hfirst
    | succ i =>
      have hnext := hroom i (Nat.lt_of_succ_lt_succ hi) other (by simpa using hother)
      rw [List.take_succ_cons, taken_cons]
      omega

/-- The names that fit are as many as there is room for. -/
theorem admits_iff : Admits room names k ↔ k ≤ (fitting room names).length := by
  induction names generalizing room k with
  | nil =>
    refine ⟨fun h => h.1, fun hk => ?_⟩
    obtain rfl : k = 0 := Nat.le_zero.mp hk
    exact admits_zero room []
  | cons name names ih =>
    cases k with
    | zero => exact iff_of_true (admits_zero room _) (Nat.zero_le _)
    | succ k =>
      rw [admits_cons_succ]
      rcases Nat.lt_or_ge room (plainLength name + 2) with hlt | hle
      · rw [fitting_cons_of_lt hlt]
        exact iff_of_false (fun h => Nat.not_le.mpr hlt h.1) (Nat.not_succ_le_zero k)
      · rw [fitting_cons_of_le hle, ih, List.length_cons, Nat.succ_le_succ_iff]
        exact and_iff_right hle

/-- The names that fit are the first ones. -/
theorem fitting_eq_take (room : Nat) (names : List String) :
    fitting room names = names.take (fitting room names).length := by
  induction names generalizing room with
  | nil => rfl
  | cons name names ih =>
    rcases Nat.lt_or_ge room (plainLength name + 2) with hlt | hle
    · rw [fitting_cons_of_lt hlt, List.length_nil, List.take_zero]
    · rw [fitting_cons_of_le hle, List.length_cons, List.take_succ_cons, ← ih]

/-! ### Tidy names -/

/-- A name without slashes at its end is as long as its plain length says. -/
theorem plainLength_ofList {cs : List Char} (h : cs.getLast? ≠ some '/') :
    plainLength (String.ofList cs) = (Text.encode (String.ofList cs)).length := by
  have hplain : Text.dropTrailing Path.isSlash cs = cs := by
    rw [Text.dropTrailing]
    cases hr : cs.reverse with
    | nil => simpa using hr.symm
    | cons c rest =>
      have hlast : cs.getLast? = some c := by rw [List.getLast?_eq_head?_reverse, hr]; rfl
      have hc : Path.isSlash c = false := by
        rw [Path.isSlash, beq_eq_false_iff_ne]
        rintro rfl
        exact h hlast
      rw [List.dropWhile_cons_of_neg (by simp [hc]), ← hr, List.reverse_reverse]
  rw [plainLength, String.toList_ofList, hplain]

/-- A tidy name is at most one byte longer than its plain length. -/
theorem Tidy.length_le (h : Tidy name) : (Text.encode name).length ≤ plainLength name + 1 := by
  by_cases hlast : name.toList.getLast? = some '/'
  · obtain ⟨cs, hcs⟩ := List.getLast?_eq_some_iff.mp hlast
    have hplain : cs.getLast? ≠ some '/' := by
      intro hslash
      obtain ⟨ds, rfl⟩ := List.getLast?_eq_some_iff.mp hslash
      exact h ⟨ds, by rw [hcs, List.append_assoc]; rfl⟩
    have hname : name = String.ofList cs ++ "/" := String.ext (by simp [hcs])
    have hsame : plainLength name = plainLength (String.ofList cs) := by
      have hdrop : Text.dropTrailing Path.isSlash (cs ++ ['/']) =
          Text.dropTrailing Path.isSlash cs :=
        by simp [Text.dropTrailing, Path.isSlash]
      rw [plainLength, plainLength, hcs, hdrop, String.toList_ofList]
    have hlength : (Text.encode "/").length = 1 := by decide
    rw [hsame, plainLength_ofList hplain, hname, Text.encode_append, List.length_append, hlength]
  · have hself : name = String.ofList name.toList := String.ofList_toList.symm
    rw [hself, plainLength_ofList (by simpa using hlast)]
    exact Nat.le_succ _

/-- What fits takes up no more than the room. -/
theorem taken_fitting_le (h : ∀ name ∈ names, Tidy name) : taken (fitting room names) ≤ room := by
  induction names generalizing room with
  | nil => exact Nat.zero_le _
  | cons name names ih =>
    obtain ⟨hname, hnames⟩ := List.forall_mem_cons.mp h
    rcases Nat.lt_or_ge room (plainLength name + 2) with hlt | hle
    · rw [fitting_cons_of_lt hlt]
      exact Nat.zero_le _
    · have hlength := hname.length_le
      have hrest : taken (fitting (room - ((Text.encode name).length + 1)) names) ≤
          room - ((Text.encode name).length + 1) := ih hnames
      rw [fitting_cons_of_le hle, taken_cons]
      omega

end Room

/-! ### Storing one name after the other -/

/-- Stores bytes in a buffer from `offset` on, if they end inside it. -/
def store? (buffer : Bytes) (offset : Nat) (bytes : Bytes) : Option Bytes :=
  if offset + bytes.length ≤ buffer.length then
    some (buffer.take offset ++ bytes ++ buffer.drop (offset + bytes.length))
  else none

/-- Stores names from `offset` on, each with a line end, up to the first that has too little room.
Says where the next one would go. -/
def lay? (buffer : Bytes) (offset : Nat) : List String → Option (Nat × Bytes)
  | [] => some (offset, buffer)
  | name :: names =>
    if offset + plainLength name + 2 ≤ buffer.length then
      match store? buffer offset (Text.encode name ++ [0x0A]) with
      | none => none
      | some buffer => lay? buffer (offset + (Text.encode name).length + 1) names
    else some (offset, buffer)

/-- Packs names into a buffer, one store at a time. The last store puts the NUL in place of the last
line end, or at the start if there is no name. -/
def pack? (names : List String) (buffer : Bytes) : Option (Nat × Bytes) :=
  if buffer.isEmpty then some (0, buffer)
  else
    match lay? buffer 0 names with
    | none => none
    | some (offset, buffer) =>
      (store? buffer (offset - 1) [0]).map fun buffer => (offset - 1, buffer)

/-- Names, each with a line end behind it. -/
def lines (names : List String) : Bytes := names.flatMap fun name => Text.encode name ++ [0x0A]

section Stores

variable {front rest bytes : Bytes} {names : List String}

@[simp] theorem lines_cons (name : String) (names : List String) :
    lines (name :: names) = Text.encode name ++ [0x0A] ++ lines names := by
  simp [lines]

theorem length_lines (names : List String) : (lines names).length = taken names := by
  induction names with
  | nil => rfl
  | cons name names ih => simp only [lines_cons, List.length_append, ih, taken_cons]; rfl

/-- What is stored at a place takes the place of as many bytes there. -/
theorem store?_append (h : bytes.length ≤ rest.length) :
    store? (front ++ rest) front.length bytes =
      some (front ++ bytes ++ rest.drop bytes.length) := by
  have hfits : front.length + bytes.length ≤ (front ++ rest).length := by
    rw [List.length_append]
    exact Nat.add_le_add_left h _
  rw [store?, if_pos hfits, List.take_left, ← List.drop_drop, List.drop_left]

/-- Behind what is there already, the names that fit are stored, and the rest of the buffer is as it
was. -/
theorem lay?_append (h : ∀ name ∈ names, Tidy name) (front rest : Bytes) :
    lay? (front ++ rest) front.length names =
      some (front.length + taken (fitting rest.length names),
        front ++ lines (fitting rest.length names) ++
          rest.drop (taken (fitting rest.length names))) := by
  induction names generalizing front rest with
  | nil => simp [lay?, fitting, lines]
  | cons name names ih =>
    obtain ⟨hname, hnames⟩ := List.forall_mem_cons.mp h
    have hwhole : (front ++ rest).length = front.length + rest.length := List.length_append
    rcases Nat.lt_or_ge rest.length (plainLength name + 2) with hlt | hle
    · rw [lay?, if_neg (by omega), fitting_cons_of_lt hlt]
      simp [lines]
    · -- The check passed asks for at least as much as is stored now.
      have hlength := hname.length_le
      have hline : (Text.encode name ++ [0x0A]).length = (Text.encode name).length + 1 := by simp
      have hstore : store? (front ++ rest) front.length (Text.encode name ++ [0x0A]) = _ :=
        store?_append (by omega)
      have hnext := ih hnames (front ++ (Text.encode name ++ [0x0A]))
        (rest.drop ((Text.encode name).length + 1))
      rw [List.length_append, hline, List.length_drop, List.drop_drop] at hnext
      rw [lay?, if_pos (by omega), hstore, hline, fitting_cons_of_le hle]
      dsimp only
      rw [Nat.add_assoc, hnext, lines_cons, taken_cons]
      simp only [List.append_assoc, Nat.add_assoc]

/-- Names with line ends between them are names with a line end behind each, less the last. -/
theorem joined_append_newline (h : names ≠ []) : joined names ++ [0x0A] = lines names := by
  induction names with
  | nil => exact absurd rfl h
  | cons name names ih =>
    cases names with
    | nil => simp [joined, lines, List.intercalate]
    | cons other names =>
      rw [lines_cons, ← ih (List.cons_ne_nil _ _)]
      simp [joined, List.intercalate_cons_cons]

theorem length_joined (names : List String) : (joined names).length = taken names - 1 := by
  by_cases h : names = []
  · subst h
    rfl
  · rw [← length_lines, ← joined_append_newline h, List.length_append]
    rfl

/-- In a buffer that is not empty, the text is put down with a NUL behind it. -/
theorem write_of_ne_nil {buffer : Bytes} (hne : buffer ≠ []) (names : List String) :
    write names buffer =
      ((joined (fitting buffer.length names)).length,
        joined (fitting buffer.length names) ++
          0 :: buffer.drop ((joined (fitting buffer.length names)).length + 1)) := by
  cases buffer with
  | nil => exact absurd rfl hne
  | cons b bs => rfl

/-- Packing one name at a time goes through, and leaves what fits. -/
theorem pack?_eq_write (h : ∀ name ∈ names, Tidy name) (buffer : Bytes) :
    pack? names buffer = some (write names buffer) := by
  by_cases hne : buffer = []
  · subst hne
    rfl
  have hlay : lay? buffer 0 names = some (0 + taken (fitting buffer.length names), _) :=
    lay?_append h [] buffer
  rw [pack?, if_neg (by simpa using hne), hlay, Nat.zero_add, List.nil_append, write_of_ne_nil hne]
  dsimp only
  generalize fitting buffer.length names = chosen
  rw [← length_joined]
  by_cases hnone : chosen = []
  · -- Nothing was stored, and the NUL goes to the front.
    subst hnone
    have hpos : 1 ≤ buffer.length := List.length_pos_iff.mpr hne
    have hstore : store? ([] ++ buffer) ([] : Bytes).length [0] = _ := store?_append hpos
    exact congrArg (Option.map _) hstore
  · have htaken : taken chosen = (joined chosen).length + 1 := by
      rw [← length_lines, ← joined_append_newline hnone, List.length_append]
      rfl
    have hstore : store? (joined chosen ++ (0x0A :: buffer.drop (taken chosen)))
        (joined chosen).length [0] = _ :=
      store?_append (Nat.succ_le_succ (Nat.zero_le _))
    rw [← joined_append_newline hnone, List.append_assoc, List.singleton_append, hstore, htaken]
    simp

end Stores

/-! ### Listed names -/

theorem slash_not_mem_baseName (path : String) : '/' ∉ (Path.baseName path).toList := by
  intro hmem
  rw [Path.baseName, String.toList_ofList, List.mem_reverse] at hmem
  have hslash := List.mem_takeWhile_imp hmem
  exact absurd hslash (by decide)

/-- A listed name has no slash but the one that marks a directory. -/
theorem tidy_listingName (e : Entry) : Tidy e.listingName := by
  have hname := slash_not_mem_baseName e.path
  intro hsuffix
  rw [Entry.listingName_eq, String.toList_append] at hsuffix
  cases hdir : e.isDirectory with
  | true =>
    rw [hdir] at hsuffix
    have hshort : ['/'] ++ ['/'] <:+ (Path.baseName e.path).toList ++ ['/'] := hsuffix
    have hslash := ((List.suffix_append_inj_of_length_eq rfl).mp hshort).1
    exact hname (hslash.mem (List.mem_singleton_self _))
  | false =>
    rw [hdir] at hsuffix
    have hplain : ['/', '/'] <:+ (Path.baseName e.path).toList := by simpa using hsuffix
    exact hname (hplain.mem (List.mem_cons_self ..))

theorem tidy_of_list {v : Volume} {dir : String} {names : List String}
    (h : v.list dir = .ok names) :
    ∀ name ∈ names, Tidy name := by
  intro name hname
  have hdir : dir ≠ "" := by
    rintro rfl
    exact absurd h (by simp [list])
  rw [names_of_list hdir h] at hname
  obtain ⟨e, -, rfl⟩ := List.mem_map.mp hname
  exact tidy_listingName e

/-! ### The packed text -/

section Text

variable {names : List String}

/-- The text that is packed ends before the buffer does, and the NUL with it. -/
theorem length_joined_lt (h : ∀ name ∈ names, Tidy name) {room : Nat} (hroom : 0 < room) :
    (joined (fitting room names)).length < room := by
  have htaken : taken (fitting room names) ≤ room := taken_fitting_le h
  rw [length_joined]
  omega

/-- Text without a NUL in it ends at the NUL. -/
theorem takeWhile_append_nul {text rest : Bytes} (h : 0 ∉ text) :
    (text ++ 0 :: rest).takeWhile (· != 0) = text := by
  rw [List.takeWhile_append_of_pos, List.takeWhile_cons_of_neg (by simp), List.append_nil]
  intro b hb
  have hne : b ≠ 0 := fun h0 => h (h0 ▸ hb)
  simpa using hne

theorem not_mem_joined (h : ∀ name ∈ names, (0 : UInt8) ∉ Text.encode name) : 0 ∉ joined names := by
  intro hmem
  by_cases hnone : names = []
  · rw [hnone] at hmem
    exact absurd hmem List.not_mem_nil
  · have hline : (0 : UInt8) ∈ lines names := by
      rw [← joined_append_newline hnone]
      exact List.mem_append_left _ hmem
    obtain ⟨name, hname, hbyte⟩ := List.mem_flatMap.mp hline
    rcases List.mem_append.mp hbyte with hbyte | hbyte
    · exact h name hname hbyte
    · exact absurd (List.mem_singleton.mp hbyte) (by decide)

/-- Names without line ends are found between the line ends. -/
theorem splitOn_joined (hne : names ≠ []) (h : ∀ name ∈ names, 0x0A ∉ Text.encode name) :
    ((joined names).splitOn 0x0A).map Text.decode? = names.map some := by
  have hpieces : (joined names).splitOn 0x0A = names.map Text.encode :=
    List.splitOn_intercalate 0x0A (by simpa using h) (by simpa using hne)
  rw [hpieces, List.map_map]
  exact List.map_congr_left fun name _ => Text.decode?_encode name

end Text

/-- What stands behind the NUL stays. -/
theorem getElem?_behind_nul {text buffer : Bytes} {i : Nat} (hi : text.length < i) :
    (text ++ 0 :: buffer.drop (text.length + 1))[i]? = buffer[i]? := by
  obtain ⟨j, rfl⟩ := Nat.exists_eq_add_of_lt hi
  rw [List.getElem?_append_right (by omega), Nat.add_assoc, Nat.add_sub_cancel_left,
    List.getElem?_cons_succ, List.getElem?_drop]
  congr 1
  omega

/-- Packing names of which none has more than one slash at its end, as those of a listing: every
store stays inside the buffer. An empty buffer is left alone. In any other, the first names stand
with a line end between each two and a NUL behind the last, as many as there is room for with the
check that each is given; what is told is the length of this text, and no byte behind the NUL has
changed. If no name has a line end or a NUL in it, the text up to the NUL is cut at its line ends
into exactly these names. -/
theorem write_is_clean_prefix {names : List String} (h : ∀ name ∈ names, Tidy name)
    (buffer : Bytes) :
    pack? names buffer = some (write names buffer) ∧
    (write names buffer).2.length = buffer.length ∧
    (buffer = [] → (write names buffer).1 = 0) ∧
    (buffer ≠ [] → ∃ k, Admits buffer.length names k ∧
      (∀ j, Admits buffer.length names j → j ≤ k) ∧
      (write names buffer).1 = (joined (names.take k)).length ∧
      (k = 0 → (write names buffer).1 = 0) ∧
      (write names buffer).2.take (write names buffer).1 = joined (names.take k) ∧
      (write names buffer).2[(write names buffer).1]? = some 0 ∧
      (∀ i, (write names buffer).1 < i → (write names buffer).2[i]? = buffer[i]?) ∧
      ((∀ name ∈ names, 0x0A ∉ Text.encode name ∧ 0 ∉ Text.encode name) → 1 ≤ k →
        (((write names buffer).2.takeWhile (· != 0)).splitOn 0x0A).map Text.decode? =
          (names.take k).map some)) ∧
    ∀ v dir listed, list v dir = .ok listed → (∀ name ∈ listed, Tidy name) ∧
      v.listPacked dir buffer = .ok (write listed buffer) := by
  refine ⟨pack?_eq_write h buffer, ?_, ?_, ?_, ?_⟩
  · by_cases hne : buffer = []
    · rw [hne]
      rfl
    · have hinside := length_joined_lt h (List.length_pos_iff.mpr hne)
      rw [write_of_ne_nil hne]
      simp only [List.length_append, List.length_cons, List.length_drop]
      omega
  · rintro rfl
    rfl
  · intro hne
    rw [write_of_ne_nil hne]
    have htake := fitting_eq_take buffer.length names
    generalize hk : (fitting buffer.length names).length = k at htake
    rw [htake]
    refine ⟨k, admits_iff.mpr (Nat.le_of_eq hk.symm), ?_, rfl, ?_, List.take_left, ?_, ?_, ?_⟩
    · intro j hj
      exact hk ▸ admits_iff.mp hj
    · rintro rfl
      rfl
    · simp
    · intro i hi
      exact getElem?_behind_nul hi
    · intro hclean hsome
      have hmem : ∀ name ∈ names.take k, name ∈ names := fun name => List.mem_of_mem_take
      have hmany : names.take k ≠ [] := by
        intro hnone
        have hlength := congrArg List.length hnone
        rw [← htake, hk] at hlength
        exact absurd hsome (by simp [hlength])
      dsimp only
      rw [takeWhile_append_nul]
      · exact splitOn_joined hmany fun name hname => (hclean name (hmem name hname)).1
      · exact not_mem_joined fun name hname => (hclean name (hmem name hname)).2
  · intro v dir listed hlist
    refine ⟨tidy_of_list hlist, ?_⟩
    rw [listPacked, hlist]
    rfl

/-- Nine bytes take a directory whose name is one letter of two bytes, and a file. A second file and
its NUL would just fit behind them, but the check asks for one byte more, and the last two bytes
stay. -/
theorem packed_up_to_third_name :
    let names := ["é/", "ab", "c"]
    let buffer : Bytes := List.replicate 9 0xFF
    write names buffer = (6, [0xC3, 0xA9, 0x2F, 0x0A, 0x61, 0x62, 0, 0xFF, 0xFF]) ∧
      pack? names buffer = some (write names buffer) ∧
      (((write names buffer).2.takeWhile (· != 0)).splitOn 0x0A).map Text.decode? =
        [some "é/", some "ab"] := by
  intro names buffer
  have htidy : ∀ name ∈ names, Tidy name := by decide
  have hwrite : write names buffer = (6, [0xC3, 0xA9, 0x2F, 0x0A, 0x61, 0x62, 0, 0xFF, 0xFF]) := by
    decide
  obtain ⟨hpack, -, -, hk, -⟩ := write_is_clean_prefix htidy buffer
  obtain ⟨k, hadmits, hmost, -, -, htext, -, -, hback⟩ := hk (by decide)
  have htwo : k = 2 := by
    have hleast : 2 ≤ k := hmost 2 (admits_iff.mpr (by decide))
    have hlength : k ≤ 2 := admits_iff.mp hadmits
    omega
  subst htwo
  exact ⟨hwrite, hpack, hback (by decide) (by decide)⟩

end RamShell.Volume.Listing
