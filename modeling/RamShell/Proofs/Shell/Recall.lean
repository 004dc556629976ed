import Mathlib.Data.List.Zip
import RamShell.Proofs.Log
import RamShell.Proofs.Shell.Privilege
import RamShell.Proofs.Shell.Tokens
/-!
# RamShell.Proofs.Shell.Recall

The history is the end of what was typed. A history is told by its capacity and the lines that were
recorded, the dropped ones too: it holds the last of them, as many as it has room for, and its
numbers count all of them (`History.recalling`). Recording a line is then one more line in that list
(`History.push_recalling`), with or without a dropped one.

A session records the lines that it takes as commands. It looks for words in a line while the history
looks for anything but blanks in its trimmed text, and the two agree: a line without words leaves
nothing when it is trimmed (`tokens_eq_nil_iff`). So every line that is not a password does to
the history what recording it would do (`Advance.history_of_command`), and the main statement,
`history_is_end_of_input`, is an induction over the lines.
-/

namespace RamShell.Shell

/-! ### Histories -/

namespace History

/-- The lines that are not blank. -/
def counted (lines : List String) : List String := lines.filter fun line => !Text.isBlankText line

/-- The history of a capacity after these lines were recorded. -/
def recalling (capacity : Nat) (lines : List String) : History where
  capacity := capacity
  lines := lines.drop (lines.length - capacity)
  total := if capacity = 0 then 0 else lines.length

variable {capacity : Nat} {lines : List String} {line : String}

theorem recalling_nil (capacity : Nat) : recalling capacity [] = .empty capacity := by
  simp [recalling, empty]

/-- A history without capacity stays as it is; one that is full drops its oldest line; one that is
not full drops none. Each of them recalls one line more. -/
theorem push_recalling (hline : Text.isBlankText line = false) :
    (recalling capacity lines).push line = recalling capacity (lines ++ [line]) := by
  by_cases hnone : capacity = 0
  · subst hnone
    simp [push, recalling]
  have hkept : (if (lines.drop (lines.length - capacity)).length = capacity
      then (lines.drop (lines.length - capacity)).tail
      else lines.drop (lines.length - capacity)) = lines.drop (lines.length + 1 - capacity) := by
    rw [List.length_drop]
    by_cases hroom : lines.length < capacity
    · have hall : lines.length + 1 - capacity = lines.length - capacity := by omega
      rw [if_neg (by omega), hall]
    · have hone : lines.length + 1 - capacity = lines.length - capacity + 1 := by omega
      rw [if_pos (by omega), List.tail_drop, hone]
  have hlast : lines.length + 1 - capacity ≤ lines.length := by omega
  simp only [push, recalling, hline, Bool.false_or, beq_iff_eq, hnone, if_false, hkept,
    List.length_append, List.length_singleton, List.drop_append_of_le_length hlast]

/-- Recording lines adds those that are not blank. -/
theorem foldl_push_recalling (capacity : Nat) (before lines : List String) :
    lines.foldl push (recalling capacity before) = recalling capacity (before ++ counted lines) := by
  induction lines generalizing before with
  | nil => rw [List.foldl_nil, counted, List.filter_nil, List.append_nil]
  | cons line lines ih =>
    rw [List.foldl_cons]
    cases hline : Text.isBlankText line with
    | true =>
      rw [push_of_blank hline, ih, counted, counted, List.filter_cons_of_neg (by simp [hline])]
    | false =>
      rw [push_recalling hline, ih, counted, counted, List.filter_cons_of_pos (by simp [hline]),
        List.append_assoc, List.singleton_append]

/-- The history that is left when lines are recorded from the start on. -/
theorem foldl_push_empty (capacity : Nat) (lines : List String) :
    lines.foldl push (.empty capacity) = recalling capacity (counted lines) := by
  rw [← recalling_nil, foldl_push_recalling, List.nil_append]

/-- A history that is the end of these lines: it has counted all of them, shows the last of them
with their numbers, and ends with the last one. Without capacity it has counted none and shows
none. -/
structure EndOf (lines : List String) (capacity : Nat) (h : History) : Prop where
  /-- There is room for so many lines. -/
  capacity_eq : h.capacity = capacity
  /-- Every line was counted. -/
  total_eq : h.total = if capacity = 0 then 0 else lines.length
  /-- As many lines are held as there are and as there is room for. -/
  size_eq : h.size = min capacity lines.length
  /-- Of the lines, numbered from one, those at the end are shown, oldest first. -/
  numbered_eq : h.numbered =
    ((List.range' 1 lines.length).zip lines).drop (lines.length - capacity)
  /-- The last line is the last one held. -/
  last?_eq : h.last? = if capacity = 0 then none else lines.getLast?

/-- Lines with their numbers, from some line on. -/
theorem numbered_drop (lines : List String) (k : Nat) :
    ((lines.drop k).zipIdx (k + 1)).map (fun (line, number) => (number, line)) =
      ((List.range' 1 lines.length).zip lines).drop k := by
  have hswap : (fun (line, number) => (number, line)) = (Prod.swap : String × Nat → Nat × String) :=
    rfl
  rw [hswap, List.zipIdx_eq_zip_range', List.zip_swap, List.length_drop]
  simp only [List.zip, List.drop_zipWith, List.drop_range', Nat.mul_one, Nat.add_comm]

theorem endOf_recalling (capacity : Nat) (lines : List String) :
    EndOf lines capacity (recalling capacity lines) where
  capacity_eq := rfl
  total_eq := rfl
  size_eq := by
    rw [size, recalling, List.length_drop]
    omega
  numbered_eq := by
    by_cases hnone : capacity = 0
    · subst hnone
      simp [numbered, recalling]
    · have hfirst : lines.length - (lines.length - (lines.length - capacity)) =
          lines.length - capacity := by omega
      simp only [numbered, recalling, if_neg hnone, List.length_drop, hfirst]
      exact numbered_drop lines _
  last?_eq := by
    rw [last?, recalling, List.getLast?_drop]
    by_cases hnone : capacity = 0
    · rw [if_pos (by omega), if_pos hnone]
    · rw [if_neg hnone]
      split
      · next hempty =>
        have hlines : lines = [] := List.eq_nil_of_length_eq_zero (by omega)
        rw [hlines, List.getLast?_nil]
      · rfl

end History

/-! ### Lines of a session -/

variable {s t : Session} {line : String}

theorem Session.recorded_history (s : Session) (line : String) :
    (s.recorded line).history = s.history.push (Text.trim (clamp line)) := by
  simp only [recorded]

theorem Deed.history_eq (h : Deed s t) : t.history = s.history := by
  cases h <;> rfl

/-- A line that is not a password does to the history what recording it does, also if it has no
words. -/
theorem Advance.history_of_command (h : Advance s line t) (hnone : s.awaitsPassword = false) :
    t.history = s.history.push (Text.trim (clamp line)) := by
  cases h with
  | dismissed hdue | admitted hdue => exact absurd (hnone.symm.trans hdue) Bool.false_ne_true
  | blank _ hwords =>
    have hblank : Text.isBlankText (Text.trim (clamp line)) = true := by
      rw [tokens_eq_nil_iff.mp hwords]
      rfl
    exact (History.push_of_blank hblank).symm
  | done _ hdeed => exact hdeed.history_eq.trans (s.recorded_history line)
  | unknown => exact s.recorded_history line
  | asked =>
    dsimp only
    exact s.recorded_history line

/-- Takes a line on a console. Answers whether the line was taken as a password. -/
def Session.take (s : Session) (input : String × Console) : Bool × Session :=
  (s.awaitsPassword, (s.execute input.1 input.2).2.1)

/-- What was typed on the lines that were not taken as passwords: each line cut, and then trimmed. -/
def commandTexts (log : List ((String × Console) × Bool)) : List String :=
  (log.filter fun (_, asPassword) => !asPassword).map fun ((line, _), _) => Text.trim (clamp line)

theorem commandTexts_concat_password (log : List ((String × Console) × Bool))
    (input : String × Console) : commandTexts (log ++ [(input, true)]) = commandTexts log := by
  rw [commandTexts, List.filter_append, List.filter_cons_of_neg (by simp), List.filter_nil,
    List.append_nil, commandTexts]

theorem commandTexts_concat_command (log : List ((String × Console) × Bool)) (line : String)
    (c : Console) :
    commandTexts (log ++ [((line, c), false)]) = commandTexts log ++ [Text.trim (clamp line)] := by
  rw [commandTexts, List.filter_append, List.filter_cons_of_pos rfl, List.filter_nil,
    List.map_append, List.map_singleton, commandTexts]

/-- The history of a session is what recording the commands leaves, line after line. -/
theorem Session.take_history {s : Session} {log : List ((String × Console) × Bool)}
    {start : History} (h : s.history = (commandTexts log).foldl History.push start)
    (input : String × Console) :
    (s.take input).2.history =
      (commandTexts (log ++ [(input, (s.take input).1)])).foldl History.push start := by
  obtain ⟨line, c⟩ := input
  have hadvance := advance_execute s line c
  rw [take]
  cases hdue : s.awaitsPassword with
  | true => rw [commandTexts_concat_password, hadvance.history_eq hdue, h]
  | false =>
    rw [commandTexts_concat_command, List.foldl_append, hadvance.history_of_command hdue, h,
      List.foldl_cons, List.foldl_nil]

/-- The history is the end of what was typed. Whatever lines are recorded and whatever the capacity
is, the history is the end of those that are not blank. In every session, whatever the lines are and
whatever the consoles refuse, the history has the capacity of the settings and is the end of the
lines that were not taken as passwords, each cut to the greatest length of a line and then trimmed,
again without blank ones. -/
theorem history_is_end_of_input :
    (∀ (capacity : Nat) (lines : List String),
      History.EndOf (History.counted lines) capacity
        (lines.foldl History.push (.empty capacity))) ∧
    (∀ line, (clamp line).toList <+: line.toList ∧ (clamp line).utf8ByteSize ≤ 512) ∧
    ∀ (volume : Volume) (settings : Settings) (inputs : List (String × Console)),
      let run := logged Session.take (.start volume settings) inputs
      History.EndOf (History.counted (commandTexts run.1)) settings.historySize run.2.history := by
  have hrecorded (capacity : Nat) (lines : List String) :
      History.EndOf (History.counted lines) capacity
        (lines.foldl History.push (.empty capacity)) := by
    rw [History.foldl_push_empty]
    exact History.endOf_recalling _ _
  refine ⟨hrecorded, fun line => ⟨toList_clamp_isPrefix line, utf8ByteSize_clamp_le line⟩, ?_⟩
  intro volume settings inputs run
  have hhistory : run.2.history =
      (commandTexts run.1).foldl History.push (.empty settings.historySize) :=
    logged_induction
      (motive := fun log (s : Session) =>
        s.history = (commandTexts log).foldl History.push (.empty settings.historySize))
      rfl (fun _ _ input h => Session.take_history h input) inputs
  rw [hhistory]
  exact hrecorded _ _

/-- With room for two lines: the password and the blank line are not counted, and the command that
asked for the password is dropped with its number. -/
example :
    let settings := { Settings.standard with historySize := 2 }
    let inputs := ["su root", "admin", " \t ", "  pwd ", "no such command"].map (·, Console.fresh)
    let run := logged Session.take (.start (.ofLimits ⟨1, 0, 0, 0, .inPlace⟩) settings) inputs
    commandTexts run.1 = ["su root", "", "pwd", "no such command"] ∧
      run.2.history.numbered = [(2, "pwd"), (3, "no such command")] ∧
      run.2.history.last? = some "no such command" := by
  decide +kernel

end RamShell.Shell
