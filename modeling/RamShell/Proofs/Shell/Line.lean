import Mathlib.Data.List.TakeWhile
import RamShell.Shell.Execute
/-!
# RamShell.Proofs.Shell.Line

Blanks at the end of a line do not count. A line is cut to its greatest length before anything else
is done with it, so it is not enough that words and trimmed text ignore trailing blanks: the cut
must not let them push anything out either. It does not, because it takes from the front
(`takeBytes_append`).

The main statement is `execute_append_blanks`: a line with blanks after it does exactly what the
line does, to the session and to the console.
-/

namespace RamShell.Text

variable {p sep : Char → Bool} {cs ds : List Char}

/-! ### Ends of texts -/

/-- Characters at the end that do not count may be left out. -/
theorem dropTrailing_append (h : ∀ c ∈ ds, p c = true) :
    dropTrailing p (cs ++ ds) = dropTrailing p cs := by
  rw [dropTrailing, List.reverse_append,
    List.dropWhile_append_of_pos fun c hc => h c (List.mem_reverse.mp hc), dropTrailing]

/-- A text is what is left of it and characters that do not count. -/
theorem exists_dropTrailing_append (p : Char → Bool) (cs : List Char) :
    ∃ ds, (∀ c ∈ ds, p c = true) ∧ cs = dropTrailing p cs ++ ds := by
  refine ⟨(cs.reverse.takeWhile p).reverse, ?_, ?_⟩
  · intro c hc
    exact List.mem_takeWhile_imp (List.mem_reverse.mp hc)
  · rw [dropTrailing, ← List.reverse_append, List.takeWhile_append_dropWhile, List.reverse_reverse]

/-- There are no words in separators. -/
theorem words_of_sep (h : ∀ c ∈ ds, sep c = true) : words sep ds = [] := by
  induction ds with
  | nil => rfl
  | cons d ds ih =>
    obtain ⟨hd, hds⟩ := List.forall_mem_cons.mp h
    rw [words, pieces_cons_of_sep hd]
    exact ih hds

theorem words_append_of_sep (h : ∀ c ∈ ds, sep c = true) : words sep (cs ++ ds) = words sep cs := by
  cases ds with
  | nil => rw [List.append_nil]
  | cons d ds =>
    obtain ⟨hd, hds⟩ := List.forall_mem_cons.mp h
    rw [words, pieces_append_sep hd, List.filter_append]
    show words sep cs ++ words sep ds = _
    rw [words_of_sep hds, List.append_nil]

theorem wordsOf_append_blanks (h : ∀ c ∈ ds, isBlank c = true) :
    wordsOf (String.ofList (cs ++ ds)) = wordsOf (String.ofList cs) := by
  simp only [wordsOf, String.toList_ofList, words_append_of_sep h]

theorem trim_append_blanks (h : ∀ c ∈ ds, isBlank c = true) :
    trim (String.ofList (cs ++ ds)) = trim (String.ofList cs) := by
  have hds : ds.dropWhile isBlank = [] := List.dropWhile_eq_nil_iff.mpr h
  simp only [trim, String.toList_ofList, List.dropWhile_append]
  split
  · next hcs => rw [hds, List.isEmpty_iff.mp hcs]
  · rw [dropTrailing_append h]

end RamShell.Text

namespace RamShell.Shell

variable {as bs : List Char}

/-! ### The cut -/

/-- What the cut takes of a longer text is what it takes of its front, and some of what follows. -/
theorem takeBytes_append (room : Nat) (as bs : List Char) :
    ∃ ds, ds <+: bs ∧ takeBytes room (as ++ bs) = takeBytes room as ++ ds := by
  induction as generalizing room with
  | nil => exact ⟨_, takeBytes_isPrefix room bs, rfl⟩
  | cons a as ih =>
    rw [List.cons_append, takeBytes, takeBytes]
    split
    · obtain ⟨ds, hds, htake⟩ := ih (room - a.utf8Size)
      exact ⟨ds, hds, by rw [htake, List.cons_append]⟩
    · exact ⟨[], List.nil_prefix, rfl⟩

/-- A line with blanks after it is cut to what the line is cut to and some of the blanks. -/
theorem clamp_append_blanks (as : List Char) (h : ∀ c ∈ bs, Text.isBlank c = true) :
    ∃ ds, (∀ c ∈ ds, Text.isBlank c = true) ∧
      clamp (String.ofList (as ++ bs)) =
        String.ofList (takeBytes maxLineLength as ++ ds) := by
  obtain ⟨ds, hds, htake⟩ := takeBytes_append maxLineLength as bs
  exact ⟨ds, fun c hc => h c (hds.mem hc), by rw [clamp, String.toList_ofList, htake]⟩

theorem trim_clamp_append_blanks (h : ∀ c ∈ bs, Text.isBlank c = true) :
    Text.trim (clamp (String.ofList (as ++ bs))) = Text.trim (clamp (String.ofList as)) := by
  obtain ⟨ds, hds, hclamp⟩ := clamp_append_blanks as h
  rw [hclamp, Text.trim_append_blanks hds, clamp, String.toList_ofList]

theorem tokens_append_blanks (h : ∀ c ∈ bs, Text.isBlank c = true) :
    tokens (String.ofList (as ++ bs)) = tokens (String.ofList as) := by
  obtain ⟨ds, hds, hclamp⟩ := clamp_append_blanks as h
  rw [tokens, hclamp, Text.wordsOf_append_blanks hds, tokens, clamp, String.toList_ofList]

/-! ### Execution -/

/-- A line counts by its words and its trimmed text, both after the cut. -/
theorem Session.execute_congr {line line' : String}
    (htext : Text.trim (clamp line) = Text.trim (clamp line'))
    (hwords : tokens line = tokens line') (s : Session) (c : Console) :
    s.execute line c = s.execute line' c := by
  simp only [execute, htext, hwords]

/-- Blanks at the end of a line do not count. -/
theorem Session.execute_append_blanks (h : ∀ c ∈ bs, Text.isBlank c = true) (s : Session)
    (c : Console) :
    s.execute (String.ofList (as ++ bs)) c = s.execute (String.ofList as) c :=
  s.execute_congr (trim_clamp_append_blanks h) (tokens_append_blanks h) c

end RamShell.Shell
