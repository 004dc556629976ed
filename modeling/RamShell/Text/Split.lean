/-!
# RamShell.Text.Split

Cutting a text at its separators. `pieces sep` keeps every piece, the empty ones too, so a text
with `n` separators always has `n + 1` pieces; paths are cut at slashes this way and input is cut
into lines. `words` drops the empty pieces, which leaves the maximal runs without a separator.

Everything works on `List Char`; callers convert at their own edge.
-/

namespace RamShell.Text

/-- The pieces of a text between the characters that `sep` accepts, empty pieces included. -/
def pieces (sep : Char → Bool) : List Char → List (List Char)
  | [] => [[]]
  | c :: cs =>
    if sep c then [] :: pieces sep cs
    else
      match pieces sep cs with
      | [] => [[c]]
      | p :: ps => (c :: p) :: ps

/-- The maximal runs of characters that `sep` does not accept, in order. -/
def words (sep : Char → Bool) (cs : List Char) : List (List Char) :=
  (pieces sep cs).filter fun p => !p.isEmpty

/-- A text without the characters at its end that `p` accepts. -/
def dropTrailing (p : Char → Bool) (cs : List Char) : List Char :=
  (cs.reverse.dropWhile p).reverse

/-! ### Facts about pieces -/

@[simp] theorem pieces_nil (sep : Char → Bool) : pieces sep [] = [[]] := rfl

/-- There is always a first piece. -/
theorem pieces_ne_nil (sep : Char → Bool) (cs : List Char) : pieces sep cs ≠ [] := by
  cases cs with
  | nil => simp
  | cons c cs =>
    rw [pieces]
    split
    · simp
    · split <;> simp

theorem pieces_cons_of_sep {sep : Char → Bool} {c : Char} (h : sep c = true) (cs : List Char) :
    pieces sep (c :: cs) = [] :: pieces sep cs := by
  simp [pieces, h]

/-- A character that is no separator joins the first piece of what follows it. -/
theorem pieces_cons_of_not_sep {sep : Char → Bool} {c : Char} (h : sep c = false)
    (cs : List Char) :
    pieces sep (c :: cs) = (c :: (pieces sep cs).headD []) :: (pieces sep cs).tail := by
  rw [pieces, if_neg (by simp [h])]
  cases hp : pieces sep cs with
  | nil => exact absurd hp (pieces_ne_nil sep cs)
  | cons p ps => rfl

/-- No piece holds a separator. -/
theorem not_sep_of_mem_pieces {sep : Char → Bool} {cs p : List Char} (hp : p ∈ pieces sep cs)
    {c : Char} (hc : c ∈ p) : sep c = false := by
  induction cs generalizing p with
  | nil => simp_all
  | cons d ds ih =>
    cases hd : sep d with
    | true =>
      rw [pieces_cons_of_sep hd] at hp
      rcases List.mem_cons.1 hp with rfl | hp
      · simp at hc
      · exact ih hp hc
    | false =>
      rw [pieces_cons_of_not_sep hd] at hp
      cases hq : pieces sep ds with
      | nil => exact absurd hq (pieces_ne_nil sep ds)
      | cons q qs =>
        rw [hq] at hp ih
        rcases List.mem_cons.1 hp with rfl | hp
        · rcases List.mem_cons.1 hc with rfl | hc
          · exact hd
          · exact ih (List.mem_cons_self ..) hc
        · exact ih (List.mem_cons_of_mem _ hp) hc

/-- Cutting at a separator in the middle cuts both sides on their own. -/
theorem pieces_append_sep {sep : Char → Bool} {c : Char} (h : sep c = true)
    (as bs : List Char) : pieces sep (as ++ c :: bs) = pieces sep as ++ pieces sep bs := by
  induction as with
  | nil => simp [pieces, h]
  | cons a as ih =>
    cases ha : sep a with
    | true => simp [pieces_cons_of_sep ha, ih]
    | false =>
      rw [List.cons_append, pieces_cons_of_not_sep ha, pieces_cons_of_not_sep ha, ih]
      cases hq : pieces sep as with
      | nil => exact absurd hq (pieces_ne_nil sep as)
      | cons q qs => rfl

/-- A text without separators is its own only piece. -/
theorem pieces_of_free {sep : Char → Bool} {cs : List Char} (h : ∀ c ∈ cs, sep c = false) :
    pieces sep cs = [cs] := by
  induction cs with
  | nil => rfl
  | cons c cs ih =>
    rw [pieces_cons_of_not_sep (h c (List.mem_cons_self ..)),
      ih fun d hd => h d (List.mem_cons_of_mem _ hd)]
    rfl

end RamShell.Text
