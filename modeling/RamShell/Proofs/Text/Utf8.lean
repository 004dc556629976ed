import RamShell.Text.Utf8
/-!
# RamShell.Proofs.Text.Utf8

What was encoded is decoded again. The bytes of a character lead the scan from between two
characters back to there, and leave the character behind (`scan_encodeChar`).

The lead byte says how many bytes follow, and narrows the first of them where an overlong form or
a surrogate could begin. That the bytes of a `Char` keep within these ranges is where the bounds of
`Char` come in: no character lies between `D800` and `DFFF` or past `10FFFF`.

Main statements: `decode?_encode`, and `newline_mem_encodeChar`, by which bytes can be cut into
lines before they are decoded.
-/

namespace RamShell.Text

/-! ### One byte -/

theorem toNat_ofNat_of_lt {n : Nat} (h : n < 256) : (UInt8.ofNat n).toNat = n :=
  Nat.mod_eq_of_lt h

/-- The reading of a lead byte that is given as a number. -/
theorem readLead_ofNat {n : Nat} (h : n < 256) :
    readLead (UInt8.ofNat n) =
      if n < 0x80 then ([some (Char.ofNat n)], none)
      else if n < 0xC2 then ([none], none)
      else if n < 0xE0 then ([], some ⟨0, 0x80, 0xBF, n - 0xC0⟩)
      else if n = 0xE0 then ([], some ⟨1, 0xA0, 0xBF, 0⟩)
      else if n = 0xED then ([], some ⟨1, 0x80, 0x9F, 0xD⟩)
      else if n < 0xF0 then ([], some ⟨1, 0x80, 0xBF, n - 0xE0⟩)
      else if n = 0xF0 then ([], some ⟨2, 0x90, 0xBF, 0⟩)
      else if n < 0xF4 then ([], some ⟨2, 0x80, 0xBF, n - 0xF0⟩)
      else if n = 0xF4 then ([], some ⟨2, 0x80, 0x8F, 4⟩)
      else ([none], none) := by
  simp [readLead, UInt8.lt_iff_toNat_lt, ← UInt8.toNat_inj, toNat_ofNat_of_lt h]

section Continuation

variable {n bits : Nat} {least greatest : UInt8}

theorem mem_range_ofNat (h : n < 256) (hleast : least.toNat ≤ n) (hgreatest : n ≤ greatest.toNat) :
    least ≤ UInt8.ofNat n ∧ UInt8.ofNat n ≤ greatest := by
  simp only [UInt8.le_iff_toNat_le, toNat_ofNat_of_lt h]
  exact ⟨hleast, hgreatest⟩

/-- A byte in range with more to follow adds its bits. -/
theorem scan_inside {due : Nat} (h : n < 256) (hleast : least.toNat ≤ n)
    (hgreatest : n ≤ greatest.toNat) (rest : Bytes) :
    scan (some ⟨due + 1, least, greatest, bits⟩) (UInt8.ofNat n :: rest) =
      scan (some ⟨due, 0x80, 0xBF, bits * 64 + (n - 0x80)⟩) rest := by
  simp only [scan, read, Unfinished.read, if_pos (mem_range_ofNat h hleast hgreatest),
    toNat_ofNat_of_lt h]
  rfl

/-- A byte in range with none to follow ends a character. -/
theorem scan_end (h : n < 256) (hleast : least.toNat ≤ n) (hgreatest : n ≤ greatest.toNat)
    (rest : Bytes) :
    scan (some ⟨0, least, greatest, bits⟩) (UInt8.ofNat n :: rest) =
      some (Char.ofNat (bits * 64 + (n - 0x80))) :: scan none rest := by
  simp only [scan, read, Unfinished.read, if_pos (mem_range_ofNat h hleast hgreatest),
    toNat_ofNat_of_lt h]
  rfl

end Continuation

/-! ### One character -/

section Lead

variable {v : Nat}

theorem readLead_one (h : v ≤ 0x7F) :
    readLead (UInt8.ofNat v) = ([some (Char.ofNat v)], none) := by
  rw [readLead_ofNat (by omega), if_pos (by omega)]

theorem readLead_two (h : 0x7F < v) (h' : v ≤ 0x7FF) :
    readLead (UInt8.ofNat (v / 64 % 32 + 192)) = ([], some ⟨0, 0x80, 0xBF, v / 64⟩) := by
  rw [readLead_ofNat (by omega), if_neg (by omega), if_neg (by omega), if_pos (by omega)]
  simp only [Prod.mk.injEq, Option.some.injEq, Unfinished.mk.injEq, true_and]
  omega

/-- The first of two bytes to follow is in the range that the lead byte leaves: past it lie the
surrogates. -/
theorem readLead_three (h : 0x7FF < v) (h' : v ≤ 0xFFFF) (hvalid : v < 0xD800 ∨ 0xDFFF < v) :
    ∃ least greatest : UInt8,
      readLead (UInt8.ofNat (v / 4096 % 16 + 224)) =
        ([], some ⟨1, least, greatest, v / 4096⟩) ∧
      least.toNat ≤ v / 64 % 64 + 128 ∧ v / 64 % 64 + 128 ≤ greatest.toNat := by
  have h80 : (0x80 : UInt8).toNat = 0x80 := rfl
  have hBF : (0xBF : UInt8).toNat = 0xBF := rfl
  rw [readLead_ofNat (by omega), if_neg (by omega), if_neg (by omega), if_neg (by omega)]
  by_cases hE0 : v / 4096 % 16 + 224 = 0xE0
  · have hA0 : (0xA0 : UInt8).toNat = 0xA0 := rfl
    refine ⟨0xA0, 0xBF, ?_, by omega, by omega⟩
    rw [if_pos hE0, show v / 4096 = 0 by omega]
  rw [if_neg hE0]
  by_cases hED : v / 4096 % 16 + 224 = 0xED
  · have h9F : (0x9F : UInt8).toNat = 0x9F := rfl
    refine ⟨0x80, 0x9F, ?_, by omega, by omega⟩
    rw [if_pos hED, show v / 4096 = 0xD by omega]
  refine ⟨0x80, 0xBF, ?_, by omega, by omega⟩
  rw [if_neg hED, if_pos (by omega), show v / 4096 % 16 + 224 - 0xE0 = v / 4096 by omega]

/-- The first of three bytes to follow is in the range that the lead byte leaves: past it lies what
is no character any more. -/
theorem readLead_four (h : 0xFFFF < v) (h' : v < 0x110000) :
    ∃ least greatest : UInt8,
      readLead (UInt8.ofNat (v / 262144 % 8 + 240)) =
        ([], some ⟨2, least, greatest, v / 262144⟩) ∧
      least.toNat ≤ v / 4096 % 64 + 128 ∧ v / 4096 % 64 + 128 ≤ greatest.toNat := by
  have h80 : (0x80 : UInt8).toNat = 0x80 := rfl
  have hBF : (0xBF : UInt8).toNat = 0xBF := rfl
  rw [readLead_ofNat (by omega), if_neg (by omega), if_neg (by omega), if_neg (by omega),
    if_neg (by omega), if_neg (by omega), if_neg (by omega)]
  by_cases hF0 : v / 262144 % 8 + 240 = 0xF0
  · have h90 : (0x90 : UInt8).toNat = 0x90 := rfl
    refine ⟨0x90, 0xBF, ?_, by omega, by omega⟩
    rw [if_pos hF0, show v / 262144 = 0 by omega]
  rw [if_neg hF0]
  by_cases hF4 : v / 262144 % 8 + 240 = 0xF4
  · have h8F : (0x8F : UInt8).toNat = 0x8F := rfl
    refine ⟨0x80, 0x8F, ?_, by omega, by omega⟩
    rw [if_neg (by omega), if_pos hF4, show v / 262144 = 4 by omega]
  refine ⟨0x80, 0xBF, ?_, by omega, by omega⟩
  rw [if_pos (by omega), show v / 262144 % 8 + 240 - 0xF0 = v / 262144 by omega]

end Lead

theorem toNat_bounds (c : Char) : c.toNat < 0xD800 ∨ (0xDFFF < c.toNat ∧ c.toNat < 0x110000) :=
  c.valid

/-- The scan reads a character off the bytes that encode it. -/
theorem scan_encodeChar (c : Char) (rest : Bytes) :
    scan none (String.utf8EncodeChar c ++ rest) = some c :: scan none rest := by
  have hbounds := toNat_bounds c
  have hback : Char.ofNat c.toNat = c := Char.ofNat_toNat c
  have h80 : (0x80 : UInt8).toNat = 0x80 := rfl
  have hBF : (0xBF : UInt8).toNat = 0xBF := rfl
  unfold String.utf8EncodeChar
  rw [show c.val.toNat = c.toNat from rfl]
  generalize hv : c.toNat = v at *
  dsimp only
  split
  · next h1 =>
    rw [List.singleton_append, scan, read, readLead_one h1, hback, List.singleton_append]
  split
  · next h1 h2 =>
    rw [List.cons_append, List.singleton_append, scan, read, readLead_two (by omega) h2,
      List.nil_append, scan_end (by omega) (by omega) (by omega),
      show v / 64 * 64 + (v % 64 + 128 - 0x80) = v by omega, hback]
  split
  · next h1 h2 h3 =>
    obtain ⟨least, greatest, hlead, hleast, hgreatest⟩ :=
      readLead_three (v := v) (by omega) h3 (by omega)
    rw [List.cons_append, List.cons_append, List.singleton_append, scan, read, hlead,
      List.nil_append, scan_inside (by omega) hleast hgreatest,
      scan_end (by omega) (by omega) (by omega),
      show (v / 4096 * 64 + (v / 64 % 64 + 128 - 0x80)) * 64 + (v % 64 + 128 - 0x80) = v by omega,
      hback]
  · next h1 h2 h3 =>
    obtain ⟨least, greatest, hlead, hleast, hgreatest⟩ :=
      readLead_four (v := v) (by omega) (by omega)
    rw [List.cons_append, List.cons_append, List.cons_append, List.singleton_append, scan, read,
      hlead, List.nil_append, scan_inside (by omega) hleast hgreatest,
      scan_inside (by omega) (by omega) (by omega), scan_end (by omega) (by omega) (by omega),
      show ((v / 262144 * 64 + (v / 4096 % 64 + 128 - 0x80)) * 64 +
        (v / 64 % 64 + 128 - 0x80)) * 64 + (v % 64 + 128 - 0x80) = v by omega,
      hback]

/-- A character is one byte, its own number, or all its bytes are past `7F`. -/
theorem mem_encodeChar {b : UInt8} {c : Char} (h : b ∈ String.utf8EncodeChar c) :
    b.toNat = c.toNat ∨ 0x80 ≤ b.toNat := by
  have hlate {n : Nat} (hn : 0x80 ≤ n) (hlt : n < 256) : 0x80 ≤ (UInt8.ofNat n).toNat := by
    rwa [toNat_ofNat_of_lt hlt]
  have hbounds := toNat_bounds c
  unfold String.utf8EncodeChar at h
  rw [show c.val.toNat = c.toNat from rfl] at h
  dsimp only at h
  split at h
  · next h1 =>
    rw [List.mem_singleton.mp h]
    exact Or.inl (toNat_ofNat_of_lt (by omega))
  right
  split at h
  · simp only [List.mem_cons, List.not_mem_nil, or_false] at h
    rcases h with rfl | rfl <;> exact hlate (by omega) (by omega)
  split at h
  · simp only [List.mem_cons, List.not_mem_nil, or_false] at h
    rcases h with rfl | rfl | rfl <;> exact hlate (by omega) (by omega)
  · simp only [List.mem_cons, List.not_mem_nil, or_false] at h
    rcases h with rfl | rfl | rfl | rfl <;> exact hlate (by omega) (by omega)

/-- Only the line end has a line end among its bytes. -/
theorem newline_mem_encodeChar {c : Char} (h : 0x0A ∈ String.utf8EncodeChar c) : c = '\n' := by
  have hten : (0x0A : UInt8).toNat = 10 := rfl
  rcases mem_encodeChar h with heq | hlate
  · rw [← Char.ofNat_toNat c, ← heq]
    rfl
  · exact absurd hlate (by omega)

/-! ### A whole text -/

theorem scan_flatMap_encodeChar (cs : List Char) :
    scan none (cs.flatMap String.utf8EncodeChar) = cs.map some := by
  induction cs with
  | nil => rfl
  | cons c cs ih => rw [List.flatMap_cons, scan_encodeChar, ih, List.map_cons]

/-- The bytes of some characters are a text, the one of these characters. -/
theorem decode?_flatMap_encodeChar (cs : List Char) :
    decode? (cs.flatMap String.utf8EncodeChar) = some (String.ofList cs) := by
  have hall : (cs.map some).mapM id = some cs := by
    induction cs with
    | nil => rfl
    | cons c cs ih => simp [List.mapM_cons, ih]
  rw [decode?, scan_flatMap_encodeChar, hall]
  rfl

/-- What was encoded is decoded again. -/
theorem decode?_encode (s : String) : decode? (encode s) = some s := by
  rw [encode, decode?_flatMap_encodeChar, String.ofList_toList]

/-- Nothing of a text is lost to invalid stretches. -/
theorem decodeLossy_encode (s : String) : decodeLossy (encode s) = s := by
  rw [decodeLossy, encode, scan_flatMap_encodeChar, List.map_map]
  exact (congrArg String.ofList (List.map_id s.toList)).trans String.ofList_toList

end RamShell.Text
