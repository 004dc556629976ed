import RamShell.Text.Numeral
/-!
# RamShell.Proofs.Text.Numeral

Which words are numbers, and which numbers they are. `Digits` says what a row of digits stands for,
`Numeral` allows for a plus sign in front of them and `SignedNumeral` for either sign. The readers
find out exactly this (`readNat?_eq_some_iff`, `readInt?_eq_some_iff`), and what is written for an
integer is a numeral of it (`signedNumeral_signedDecimal`).
-/

namespace RamShell.Text

variable {base n : Nat} {c : Char} {cs : List Char} {word : String} {i : Int}

/-! ### Digits -/

/-- An ASCII digit of a base, which is ten at most. -/
def IsDigit (base : Nat) (c : Char) : Prop := '0'.toNat ≤ c.toNat ∧ c.toNat < '0'.toNat + base

instance (base : Nat) : DecidablePred (IsDigit base) := fun _ => inferInstanceAs (Decidable (_ ∧ _))

/-- What a row of digits stands for. Zeros in front do not count. -/
structure Digits (base : Nat) (cs : List Char) (n : Nat) : Prop where
  /-- There is a digit. -/
  ne_nil : cs ≠ []
  /-- There is nothing but digits. -/
  isDigit : ∀ c ∈ cs, IsDigit base c
  /-- The digits have this value. -/
  value : Nat.ofDigitChars base cs 0 = n

theorem digit?_of_isDigit (h : IsDigit base c) : digit? base c = some (c.toNat - '0'.toNat) := by
  obtain ⟨hfirst, hlast⟩ := h
  have hbelow : c.toNat - '0'.toNat < base := by omega
  rw [digit?, if_pos ⟨hfirst, hbelow⟩]

theorem isDigit_of_digit? (h : digit? base c = some n) : IsDigit base c := by
  rw [digit?] at h
  split at h
  · next hdigit =>
    obtain ⟨hfirst, hbelow⟩ := hdigit
    have hfirst : '0'.toNat ≤ c.toNat := hfirst
    exact ⟨hfirst, by omega⟩
  · exact absurd h nofun

/-- A row of digits is read digit by digit. -/
theorem mapM_digit? (h : ∀ c ∈ cs, IsDigit base c) :
    cs.mapM (digit? base) = some (cs.map fun c => c.toNat - '0'.toNat) := by
  induction cs with
  | nil => rfl
  | cons c cs ih =>
    obtain ⟨hc, hcs⟩ := List.forall_mem_cons.mp h
    rw [List.mapM_cons, digit?_of_isDigit hc, ih hcs]
    rfl

theorem isDigit_of_mapM_digit? {ds : List Nat} (h : cs.mapM (digit? base) = some ds) :
    ∀ c ∈ cs, IsDigit base c := by
  induction cs generalizing ds with
  | nil => exact fun c hc => absurd hc List.not_mem_nil
  | cons c cs ih =>
    rw [List.mapM_cons] at h
    obtain ⟨d, hd, h⟩ := Option.bind_eq_some_iff.mp h
    obtain ⟨ds, hds, -⟩ := Option.bind_eq_some_iff.mp h
    exact List.forall_mem_cons.mpr ⟨isDigit_of_digit? hd, ih hds⟩

/-- Digits are read as what they stand for, and nothing else is read. -/
theorem natOfDigits?_eq_some_iff : natOfDigits? base cs = some n ↔ Digits base cs n := by
  have hread (h : ∀ c ∈ cs, IsDigit base c) :
      (cs.mapM (digit? base)).map (·.foldl (fun n d => n * base + d) 0) =
        some (Nat.ofDigitChars base cs 0) := by
    rw [mapM_digit? h, Option.map_some, List.foldl_map, Nat.ofDigitChars_eq_foldl]
    simp only [Nat.mul_comm]
  cases cs with
  | nil => exact iff_of_false nofun fun h => h.ne_nil rfl
  | cons c cs =>
    rw [natOfDigits?]
    · constructor
      · intro h
        obtain ⟨ds, hds, -⟩ := Option.map_eq_some_iff.mp h
        have hdigits := isDigit_of_mapM_digit? hds
        exact ⟨List.cons_ne_nil _ _, hdigits, Option.some.inj ((hread hdigits).symm.trans h)⟩
      · exact fun h => h.value ▸ hread h.isDigit
    · exact List.cons_ne_nil _ _

/-- The digits that are written for a number stand for it. -/
theorem digits_toDigits (n : Nat) : Digits 10 (Nat.toDigits 10 n) n where
  ne_nil := Nat.toDigits_ne_nil
  isDigit := by
    intro c hc
    have hdigit : c.isDigit = true := Nat.isDigit_of_mem_toDigits (by decide) (by decide) hc
    have hrange : 48 ≤ c.toNat ∧ c.toNat ≤ 57 := Char.isDigit_iff_toNat.mp hdigit
    exact ⟨hrange.1, Nat.lt_succ_of_le hrange.2⟩
  value := Nat.ofDigitChars_ten_toDigits

theorem natOfDigits?_toDigits (n : Nat) : natOfDigits? 10 (Nat.toDigits 10 n) = some n :=
  natOfDigits?_eq_some_iff.mpr (digits_toDigits n)

/-! ### Numerals -/

/-- A word that stands for a number: digits, and maybe a plus sign in front of them. -/
inductive Numeral (base : Nat) (word : String) (n : Nat) : Prop
  /-- Digits alone. -/
  | bare (h : Digits base word.toList n)
  /-- A plus sign and digits. -/
  | plus {cs : List Char} (hword : word.toList = '+' :: cs) (h : Digits base cs n)

/-- A word that stands for an integer: digits, and maybe a sign in front of them. -/
inductive SignedNumeral (word : String) : Int → Prop
  /-- No minus sign. -/
  | unsigned {n : Nat} (h : Numeral 10 word n) : SignedNumeral word n
  /-- A minus sign and digits. -/
  | minus {cs : List Char} {n : Nat} (hword : word.toList = '-' :: cs) (h : Digits 10 cs n) :
      SignedNumeral word (-n)

/-- A word does not begin with a sign if it is all digits. -/
theorem Digits.head?_ne (h : Digits base cs n) {sign : Char} (hsign : sign.toNat < '0'.toNat)
    (rest : List Char) : cs ≠ sign :: rest := by
  rintro rfl
  have hdigit := (h.isDigit sign (List.mem_cons_self ..)).1
  omega

theorem readNat?_eq_some_iff : readNat? base word = some n ↔ Numeral base word n := by
  rw [readNat?]
  split
  · next cs hword =>
    rw [natOfDigits?_eq_some_iff]
    refine ⟨fun h => .plus hword h, fun h => ?_⟩
    cases h with
    | bare h => exact absurd hword (h.head?_ne (by decide) cs)
    | plus hword' h =>
      obtain ⟨-, rfl⟩ := List.cons.inj (hword.symm.trans hword')
      exact h
  · next hword =>
    rw [natOfDigits?_eq_some_iff]
    refine ⟨fun h => .bare h, fun h => ?_⟩
    cases h with
    | bare h => exact h
    | plus hword' h => exact absurd hword' (hword _)

theorem readInt?_eq_some_iff : readInt? word = some i ↔ SignedNumeral word i := by
  rw [readInt?]
  split
  · next cs hword =>
    rw [Option.map_eq_some_iff]
    constructor
    · rintro ⟨j, hj, rfl⟩
      obtain ⟨n, hn, hj⟩ := Option.bind_eq_some_iff.mp hj
      obtain rfl := Option.some.inj hj
      exact .minus hword (natOfDigits?_eq_some_iff.mp hn)
    · intro h
      cases h with
      | unsigned h =>
        cases h with
        | bare h => exact absurd hword (h.head?_ne (by decide) cs)
        | plus hword' => exact absurd (List.cons.inj (hword.symm.trans hword')).1 (by decide)
      | @minus cs' n hword' h =>
        obtain ⟨-, rfl⟩ := List.cons.inj (hword.symm.trans hword')
        exact ⟨n, by rw [natOfDigits?_eq_some_iff.mpr h]; rfl, rfl⟩
  · next hword =>
    rw [Option.map_eq_some_iff]
    constructor
    · rintro ⟨n, hn, rfl⟩
      exact .unsigned (readNat?_eq_some_iff.mp hn)
    · intro h
      cases h with
      | @unsigned n h => exact ⟨n, readNat?_eq_some_iff.mpr h, rfl⟩
      | minus hword' => exact absurd hword' (hword _)

/-- What is written for an integer stands for it. -/
theorem signedNumeral_signedDecimal (i : Int) : SignedNumeral (signedDecimal i) i := by
  have hdigits := digits_toDigits i.natAbs
  rw [signedDecimal]
  split
  · next hneg =>
    have hvalue : i = -(i.natAbs : Int) := by omega
    have hword : ("-" ++ decimal i.natAbs).toList = '-' :: Nat.toDigits 10 i.natAbs := by
      simp [decimal]
    have hnumeral := SignedNumeral.minus hword hdigits
    rwa [← hvalue] at hnumeral
  · next hneg =>
    have hvalue : i = (i.natAbs : Int) := by omega
    have hword : (decimal i.natAbs).toList = Nat.toDigits 10 i.natAbs := String.toList_ofList
    have hnumeral := SignedNumeral.unsigned (.bare (hword.symm ▸ hdigits))
    rwa [← hvalue] at hnumeral

end RamShell.Text
