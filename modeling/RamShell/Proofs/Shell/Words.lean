import RamShell.Proofs.Shell.Line
/-!
# RamShell.Proofs.Shell.Words

Lines that are typed word by word. A word is a text that no blank cuts, so words with single spaces
between them are found again in the line that they make (`wordsOf_intercalate`). The shell sees all
of them if the line is within its bounds, because the two cuts, of the line and of its words, leave
alone what is not too long: the main statement is `tokens_typed`.
-/

namespace RamShell

namespace Text

variable {sep : Char → Bool}

/-! ### Words of a text -/

/-- The words on both sides of a separator. -/
theorem words_append_sep {c : Char} (h : sep c = true) (as bs : List Char) :
    words sep (as ++ c :: bs) = words sep as ++ words sep bs := by
  rw [words, pieces_append_sep h, List.filter_append, words, words]

/-- A text without separators is a word, unless it is empty. -/
theorem words_of_free {cs : List Char} (hne : cs ≠ []) (h : ∀ c ∈ cs, sep c = false) :
    words sep cs = [cs] := by
  rw [words, pieces_of_free h]
  exact List.filter_cons_of_pos (by simpa using hne)

/-- A text that is not empty and that no blank cuts. -/
def IsWord (w : String) : Prop := w ≠ "" ∧ ∀ c ∈ w.toList, isBlank c = false

-- The text is looked through character by character, not all characters there are.
instance : DecidablePred IsWord := fun w =>
  have : Decidable (∀ c ∈ w.toList, isBlank c = false) := List.decidableBAll ..
  inferInstanceAs (Decidable (w ≠ "" ∧ ∀ c ∈ w.toList, isBlank c = false))

theorem IsWord.words_eq {w : String} (h : IsWord w) : words isBlank w.toList = [w.toList] :=
  words_of_free (fun hnil => h.1 (String.toList_eq_nil_iff.mp hnil)) h.2

theorem wordsOf_of_words {s : String} {ws : List String}
    (h : words isBlank s.toList = ws.map String.toList) : wordsOf s = ws := by
  rw [wordsOf, h, List.map_map]
  exact (List.map_congr_left fun w _ => String.ofList_toList).trans (List.map_id ws)

/-- Words with spaces between them are the words of that text. -/
theorem wordsOf_intercalate {ws : List String} (h : ∀ w ∈ ws, IsWord w) :
    wordsOf (" ".intercalate ws) = ws := by
  refine wordsOf_of_words ?_
  induction ws with
  | nil => rfl
  | cons w ws ih =>
    obtain ⟨hw, hws⟩ := List.forall_mem_cons.mp h
    cases ws with
    | nil => rw [String.intercalate_singleton, hw.words_eq, List.map_singleton]
    | cons u us =>
      have hspace : (" ".intercalate (w :: u :: us)).toList =
          w.toList ++ ' ' :: (" ".intercalate (u :: us)).toList := by
        simp [String.intercalate_cons_cons]
      rw [hspace, words_append_sep (by decide), hw.words_eq, ih hws]
      rfl

end Text

namespace Shell

/-! ### Lines within the bounds -/

/-- A text that has room is taken as a whole. -/
theorem takeBytes_of_le {room : Nat} {cs : List Char}
    (h : (cs.flatMap String.utf8EncodeChar).length ≤ room) : takeBytes room cs = cs := by
  induction cs generalizing room with
  | nil => rfl
  | cons c cs ih =>
    rw [List.flatMap_cons, List.length_append, String.length_utf8EncodeChar] at h
    rw [takeBytes, if_pos (by omega), ih (by omega)]

/-- A line that is not too long is not cut. -/
theorem clamp_of_le {line : String} (h : line.utf8ByteSize ≤ maxLineLength) :
    clamp line = line := by
  rw [← Text.length_encode, Text.encode] at h
  rw [clamp, takeBytes_of_le h, String.ofList_toList]

/-- The line that is typed for words, with one space between any two. -/
def typed (ws : List String) : String := " ".intercalate ws

/-- Words for a line within the bounds of the shell. -/
structure Fits (ws : List String) : Prop where
  /-- There are not too many. -/
  count : ws.length ≤ maxWords
  /-- The line has not too many bytes. -/
  length : (typed ws).utf8ByteSize ≤ maxLineLength

/-- The shell sees the words that were typed. -/
theorem tokens_typed {ws : List String} (hfits : Fits ws) (h : ∀ w ∈ ws, Text.IsWord w) :
    tokens (typed ws) = ws := by
  rw [tokens, clamp_of_le hfits.length, typed, Text.wordsOf_intercalate h,
    List.take_of_length_le hfits.count]

/-- A line is longer than its words after the first. -/
theorem utf8ByteSize_typed_cons (w : String) {ws : List String} (hne : ws ≠ []) :
    (typed (w :: ws)).utf8ByteSize = w.utf8ByteSize + 1 + (typed ws).utf8ByteSize := by
  rw [typed, String.intercalate_cons_of_ne_nil hne, String.utf8ByteSize_append,
    String.utf8ByteSize_append]
  rfl

/-- A line is as long as each of its words, or longer. -/
theorem utf8ByteSize_le_typed {w : String} {ws : List String} (h : w ∈ ws) :
    w.utf8ByteSize ≤ (typed ws).utf8ByteSize := by
  induction ws with
  | nil => exact absurd h List.not_mem_nil
  | cons u ws ih =>
    by_cases hws : ws = []
    · subst hws
      obtain rfl := List.mem_singleton.mp h
      exact Nat.le_of_eq (by rw [typed, String.intercalate_singleton])
    · rw [utf8ByteSize_typed_cons u hws]
      rcases List.mem_cons.mp h with rfl | h
      · omega
      · exact (ih h).trans (by omega)

end Shell

end RamShell
