import Mathlib.Data.List.Forall2
import RamShell.Proofs.Shell.Line
import RamShell.Proofs.Text.Utf8
import RamShell.Terminal
/-!
# RamShell.Proofs.Terminal.Lines

A text cut as a script and the same text cut as typed input. A script is cut as characters and loses
one carriage return before a line end; typed input is cut as bytes, is decoded line by line, and
loses all line ends and carriage returns at the end of a line. So the two disagree on the texts of
the lines. They agree on how many there are, because no character but the line end has the byte of a
line end in it, and on what each line does, because what they disagree on are blanks at its end.

Main statements: `forall₂_types_scriptLines`, and `scriptLines_append`, by which a script can be cut
between two lines.
-/

namespace RamShell.Terminal

open Shell (Session)

variable {p cs : List Char} {bs : Bytes}

/-! ### Texts by their lines -/

/-- A text is built from its last line, which has no end, by putting lines with an end in front. -/
theorem lines_induction {motive : List Char → Prop} (last : ∀ p, '\n' ∉ p → motive p)
    (line : ∀ p rest, '\n' ∉ p → motive rest → motive (p ++ '\n' :: rest)) (cs : List Char) :
    motive cs := by
  -- The induction is over what is left to cut; `p` is the line it is in.
  suffices h : ∀ p, '\n' ∉ p → motive (p ++ cs) from h [] List.not_mem_nil
  induction cs with
  | nil => exact fun p hp => by simpa using last p hp
  | cons c cs ih =>
    intro p hp
    by_cases hc : c = '\n'
    · subst hc
      exact line p cs hp (ih [] List.not_mem_nil)
    · have hjoin : '\n' ∉ p ++ [c] := by simp [hp, Ne.symm hc]
      simpa using ih (p ++ [c]) hjoin

/-! ### Scripts -/

theorem pieces_of_last (hp : '\n' ∉ p) : Text.pieces (· == '\n') p = [p] :=
  Text.pieces_of_free fun _ hc => beq_eq_false_iff_ne.mpr fun h => hp (h ▸ hc)

theorem scriptLines_last (hp : '\n' ∉ p) :
    scriptLines (String.ofList p) = if p = [] then [] else [String.ofList p] := by
  simp only [scriptLines, String.toList_ofList, pieces_of_last hp]
  cases p <;> rfl

theorem scriptLines_line (hp : '\n' ∉ p) (rest : List Char) :
    scriptLines (String.ofList (p ++ '\n' :: rest)) =
      String.ofList (dropReturn p) :: scriptLines (String.ofList rest) := by
  have hcut : Text.pieces (· == '\n') (p ++ '\n' :: rest) = p :: Text.pieces (· == '\n') rest := by
    rw [Text.pieces_append_sep (by rfl), pieces_of_last hp, List.singleton_append]
  simp only [scriptLines, String.toList_ofList, hcut]
  cases hpieces : Text.pieces (· == '\n') rest with
  | nil => exact absurd hpieces (Text.pieces_ne_nil _ _)
  | cons q qs => simp

/-- Cutting a script between two lines cuts both sides on their own. -/
theorem scriptLines_append {front : String} (hfront : front = "" ∨ ∃ f, front = f ++ "\n")
    (back : String) : scriptLines (front ++ back) = scriptLines front ++ scriptLines back := by
  suffices h : ∀ cs : List Char, (cs = [] ∨ cs.getLast? = some '\n') →
      scriptLines (String.ofList (cs ++ back.toList)) =
        scriptLines (String.ofList cs) ++ scriptLines (String.ofList back.toList) by
    have hcs : front.toList = [] ∨ front.toList.getLast? = some '\n' := by
      rcases hfront with rfl | ⟨f, rfl⟩ <;> simp
    simpa [← String.toList_append] using h front.toList hcs
  intro cs
  induction cs using lines_induction with
  | last p hp =>
    rintro (rfl | hend)
    · rw [List.nil_append, scriptLines_last List.not_mem_nil, if_pos rfl, List.nil_append]
    · exact absurd (List.mem_of_getLast? hend) hp
  | line p rest hp ih =>
    intro hend
    have hrest : rest = [] ∨ rest.getLast? = some '\n' := by
      cases rest with
      | nil => exact Or.inl rfl
      | cons c rest => simpa using hend
    rw [List.append_assoc, List.cons_append, scriptLines_line hp, scriptLines_line hp, ih hrest,
      List.cons_append]

/-! ### Typed input -/

theorem typedLines_last (hbs : 0x0A ∉ bs) : typedLines bs = if bs = [] then [] else [bs] := by
  induction bs with
  | nil => rfl
  | cons b bs ih =>
    obtain ⟨hb, hbs⟩ := not_or.mp (mt List.mem_cons.mpr hbs)
    rw [typedLines, if_neg (by simpa using Ne.symm hb), ih hbs]
    cases bs <;> rfl

theorem typedLines_line (hbs : 0x0A ∉ bs) (rest : Bytes) :
    typedLines (bs ++ 0x0A :: rest) = (bs ++ [0x0A]) :: typedLines rest := by
  induction bs with
  | nil => rfl
  | cons b bs ih =>
    obtain ⟨hb, hbs⟩ := not_or.mp (mt List.mem_cons.mpr hbs)
    rw [List.cons_append, typedLines, if_neg (by simpa using Ne.symm hb), ih hbs, List.cons_append]

/-- Text without a line end has no line end among its bytes. -/
theorem newline_not_mem_bytes (hp : '\n' ∉ p) : 0x0A ∉ p.flatMap String.utf8EncodeChar := by
  intro hmem
  obtain ⟨c, hc, hbyte⟩ := List.mem_flatMap.mp hmem
  exact hp (Text.newline_mem_encodeChar hbyte ▸ hc)

theorem bytes_newline : String.utf8EncodeChar '\n' = [0x0A] := by decide

/-! ### What the lines do -/

theorem isBlank_lineEnd {c : Char} (h : (c == '\n' || c == '\r') = true) :
    Text.isBlank c = true := by
  rcases (by simpa using h : c = '\n' ∨ c = '\r') with rfl | rfl <;> rfl

/-- What is dropped at the end of a typed line does not count. -/
theorem execute_typedText (s : Session) (line : String) (c : Console) :
    s.execute (typedText line) c = s.execute line c := by
  obtain ⟨ds, hds, hline⟩ :=
    Text.exists_dropTrailing_append (fun c => c == '\n' || c == '\r') line.toList
  calc s.execute (typedText line) c
      = s.execute (String.ofList
          (Text.dropTrailing (fun c => c == '\n' || c == '\r') line.toList ++ ds)) c :=
        (s.execute_append_blanks (fun d hd => isBlank_lineEnd (hds d hd)) c).symm
    _ = s.execute line c := by rw [← hline, String.ofList_toList]

/-- What is dropped at the end of a script's line are blanks. -/
theorem exists_dropReturn_append (p : List Char) :
    ∃ ds, (∀ d ∈ ds, Text.isBlank d = true) ∧ p = dropReturn p ++ ds := by
  unfold dropReturn
  split
  · next h =>
    obtain ⟨front, rfl⟩ := List.getLast?_eq_some_iff.mp h
    exact ⟨['\r'], List.forall_mem_singleton.mpr rfl, by simp⟩
  · exact ⟨[], by simp, by simp⟩

/-- What is dropped at the end of a script's line does not count. -/
theorem execute_dropReturn (s : Session) (p : List Char) (c : Console) :
    s.execute (String.ofList (dropReturn p)) c = s.execute (String.ofList p) c := by
  obtain ⟨ds, hds, hp⟩ := exists_dropReturn_append p
  calc s.execute (String.ofList (dropReturn p)) c
      = s.execute (String.ofList (dropReturn p ++ ds)) c := (s.execute_append_blanks hds c).symm
    _ = s.execute (String.ofList p) c := by rw [← hp]

/-- Typing the bytes `raw` does what a script's `line` does, to every session and on every
console. -/
def Types (raw : Bytes) (line : String) : Prop :=
  ∃ typed, Text.decode? raw = some typed ∧
    ∀ (s : Session) (c : Console), s.execute (typedText typed) c = s.execute line c

/-- Typing characters does what they do as a line. -/
theorem types_of_execute_eq {line : String}
    (h : ∀ (s : Session) (c : Console), s.execute (String.ofList cs) c = s.execute line c) :
    Types (cs.flatMap String.utf8EncodeChar) line :=
  ⟨_, Text.decode?_flatMap_encodeChar cs, fun s c => (execute_typedText s _ c).trans (h s c)⟩

theorem isSome_of_types {raws : List Bytes} {lines : List String}
    (h : List.Forall₂ Types raws lines) : ∀ raw ∈ raws, (Text.decode? raw).isSome := by
  induction h with
  | nil => simp
  | cons htypes _ ih =>
    obtain ⟨typed, hdecode, -⟩ := htypes
    exact List.forall_mem_cons.mpr ⟨by simp [hdecode], ih⟩

/-- Typing a text does, line by line, what the text does as a script. -/
theorem forall₂_types_scriptLines (text : String) :
    List.Forall₂ Types (typedLines (Text.encode text)) (scriptLines text) := by
  suffices h : ∀ cs : List Char, List.Forall₂ Types
      (typedLines (cs.flatMap String.utf8EncodeChar)) (scriptLines (String.ofList cs)) by
    simpa [Text.encode] using h text.toList
  intro cs
  induction cs using lines_induction with
  | last p hp =>
    rw [typedLines_last (newline_not_mem_bytes hp), scriptLines_last hp]
    by_cases hnil : p = []
    · simp [hnil]
    · have hbytes : p.flatMap String.utf8EncodeChar ≠ [] := by
        obtain ⟨c, p, rfl⟩ := List.exists_cons_of_ne_nil hnil
        simp
      rw [if_neg hnil, if_neg hbytes]
      exact .cons (types_of_execute_eq fun _ _ => rfl) .nil
  | line p rest hp ih =>
    have hend : (p ++ '\n' :: rest).flatMap String.utf8EncodeChar =
        p.flatMap String.utf8EncodeChar ++ 0x0A :: rest.flatMap String.utf8EncodeChar := by
      rw [List.flatMap_append, List.flatMap_cons, bytes_newline, List.singleton_append]
    have hline : p.flatMap String.utf8EncodeChar ++ [0x0A] =
        (p ++ ['\n']).flatMap String.utf8EncodeChar := by
      rw [List.flatMap_append, List.flatMap_singleton, bytes_newline]
    rw [hend, typedLines_line (newline_not_mem_bytes hp), scriptLines_line hp, hline]
    refine .cons (types_of_execute_eq fun s c => ?_) ih
    calc s.execute (String.ofList (p ++ ['\n'])) c
        = s.execute (String.ofList p) c :=
          s.execute_append_blanks (List.forall_mem_singleton.mpr rfl) c
      _ = s.execute (String.ofList (dropReturn p)) c := (execute_dropReturn s p c).symm

end RamShell.Terminal
