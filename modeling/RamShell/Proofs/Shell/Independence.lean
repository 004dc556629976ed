import RamShell.Proofs.Shell.Advance
/-!
# RamShell.Proofs.Shell.Independence

The console does not decide what happens to the data. A console can cut the output of a command
short at any text, so whatever a command does to the volume or to the history must be done before
its first text. It is: a command is conducted so that its session is the same on every console, or it
asks for the root password, and then what comes after its texts is none of the data. So every command
leaves the same data on every console (`settled_of_handler`), and so does a password.

What the console does decide is whether `halt` stops the shell, and by one text alone
(`execute_eq_halt_iff`). The main statement is `console_never_decides`.
-/

namespace RamShell.Shell

open Command
open Script (play)

/-! ### Data -/

/-- What lasts of a session: the volume and the history. -/
def Session.data (s : Session) : Volume × History := (s.volume, s.history)

/-- A script that leaves the same data on every console. -/
def Script.Settled (script : Script) (s : Session) : Prop :=
  ∃ data, ∀ c, (play script s c).2.1.data = data

variable {s : Session}

theorem Conduct.settled {parents : Prop} {script : Script} (h : Conduct s parents script) :
    script.Settled s := by
  obtain ⟨t, -, hsession⟩ := h.exists_deed
  exact ⟨t.data, fun c => congrArg Session.data (hsession c)⟩

/-- A session that waits for a password has the data of one that does not. -/
theorem settled_root (hroot : s.isRoot = false) (args : List String) :
    (root s args).Settled s := by
  refine ⟨s.data, fun c => ?_⟩
  rcases play_root hroot args c with hsession | hsession
  · rw [hsession]
  · rw [hsession]
    rfl

/-- A root session has the data of the session that it started in. -/
theorem settled_password (s : Session) (candidate : String) :
    (password s candidate).Settled s := by
  refine ⟨s.data, fun c => ?_⟩
  rcases play_password s candidate c with hsession | ⟨-, hsession⟩
  · rw [hsession]
  · rw [hsession]
    rfl

/-- Every command leaves the same data on every console. -/
theorem settled_of_handler (s : Session) (args : List String) (b : Builtin) :
    (b.handler s args).Settled s := by
  rcases conduct_or_asksForRoot s args b with hconduct | ⟨-, hroot, hhandler⟩
  · exact hconduct.settled
  · rw [hhandler]
    exact settled_root hroot args

namespace Session

theorem data_carryOut {script : Script} (h : script.Settled s) (name : String) :
    ∃ data, ∀ c, (carryOut name script s c).2.1.data = data := by
  obtain ⟨data, hdata⟩ := h
  refine ⟨data, fun c => ?_⟩
  rw [carryOut_session, hdata c]

/-- Every line leaves the same data on every console. -/
theorem data_execute (s : Session) (line : String) :
    ∃ data, ∀ c, (s.execute line c).2.1.data = data := by
  unfold execute
  dsimp only
  split
  · exact data_carryOut (settled_password _ _) _
  · cases tokens line with
    | nil => exact ⟨s.data, fun c => rfl⟩
    | cons word args =>
      dsimp only
      unfold run
      cases Builtin.lookup? word with
      | none =>
        refine ⟨_, fun c => congrArg data (?_ : _ = s.recorded line)⟩
        exact Script.play_of_quiet (quiet_unknownScript _ word) (s.recorded line) c
      | some b => exact data_carryOut (settled_of_handler (s.recorded line) args b) word

end Session

/-! ### What the console takes -/

end RamShell.Shell

namespace RamShell.Console

/-- Whether a console takes each of some texts, offered one after the other. -/
def takesAll (c : Console) : List String → Bool
  | [] => true
  | text :: texts => c.takes text && (c.write text).takesAll texts

/-- What happened on a console before does not count, only how often a text was offered. -/
theorem takesAll_congr {c d : Console} (haccepts : c.accepts = d.accepts)
    (hattempts : c.attempts = d.attempts) (texts : List String) :
    c.takesAll texts = d.takesAll texts := by
  induction texts generalizing c d with
  | nil => rfl
  | cons text texts ih =>
    have htakes : c.takes text = d.takes text := by rw [takes, takes, haccepts, hattempts]
    have hrest : (c.write text).takesAll texts = (d.write text).takesAll texts :=
      ih haccepts (congrArg (· + 1) hattempts)
    rw [takesAll, takesAll, htakes, hrest]

/-- Colors do not count. -/
@[simp] theorem takesAll_paint (c : Console) (fg bg : Color) (texts : List String) :
    (c.paint fg bg).takesAll texts = c.takesAll texts :=
  takesAll_congr (c := c.paint fg bg) (d := c) rfl rfl texts

end RamShell.Console

namespace RamShell.Shell

open Command
open Script (play)

/-- Texts are written to their end if all of them are taken. -/
theorem Script.play_say_eq_ok_iff {texts : List String} {s : Session} {c : Console} :
    (play (say texts) s c).1 = .ok () ↔ c.takesAll texts = true := by
  induction texts generalizing c with
  | nil => exact iff_of_true rfl rfl
  | cons text texts ih =>
    show (play (.print text :: say texts) s c).1 = _ ↔ _
    rw [play, Console.takesAll]
    cases c.takes text with
    | true => exact ih
    | false =>
      refine iff_of_false (fun h => ?_) Bool.false_ne_true
      cases h

/-- The colors around texts are never refused. -/
theorem Script.play_sayIn_eq_ok_iff {color : Console.Color} {texts : List String} {s : Session}
    {c : Console} : (play (sayIn color texts) s c).1 = .ok () ↔ c.takesAll texts = true := by
  have hsay : (play (say texts) s (c.paint color Console.Color.background)).1 = .ok () ↔
      c.takesAll texts = true := by
    rw [play_say_eq_ok_iff, Console.takesAll_paint]
  show (play (say texts ++ [.plain]) s (c.paint color Console.Color.background)).1 = _ ↔ _
  rw [play_append, ← hsay]
  split
  · next hok => exact iff_of_true rfl hok
  · rfl

/-! ### Stopping -/

/-- No other command has the name of `halt`, and none stops the shell. -/
theorem Builtin.outcome_of_ne_halt {b : Builtin} (h : b ≠ .halt) :
    b.name ≠ "halt" ∧ b.outcome = .proceed := by
  cases b with
  | halt => exact absurd rfl h
  | _ => exact ⟨by decide, rfl⟩

namespace Session

variable {s : Session} {c : Console}

/-- The words of a command stop the shell if the command is `halt` and its one text is taken. -/
theorem run_eq_halt_iff {word : String} {args : List String} :
    (s.run word args c).1 = .halt ↔ word = "halt" ∧ c.takes "System halted.\n" = true := by
  unfold run
  cases hb : Builtin.lookup? word with
  | none =>
    have hword : word ≠ "halt" := by
      rintro rfl
      exact absurd hb (by decide)
    simp [hword]
  | some b =>
    obtain rfl := Builtin.lookup?_eq_some_iff.mp hb
    dsimp only
    by_cases hhalt : b = .halt
    · subst hhalt
      have hran : (carryOut Builtin.halt.name (halt s args) s c).1 = c.takes "System halted.\n" := by
        rw [Bool.eq_iff_iff, carryOut_eq_true_iff, halt, Script.play_sayIn_eq_ok_iff,
          Console.takesAll, Console.takesAll, Bool.and_true]
      rw [Builtin.handler, hran]
      cases c.takes "System halted.\n" with
      | true => exact iff_of_true rfl ⟨rfl, rfl⟩
      | false => simp
    · obtain ⟨hname, houtcome⟩ := Builtin.outcome_of_ne_halt hhalt
      simp [hname, houtcome]

/-- The shell stops after a line that is no password, starts with `halt`, and has its message
taken. -/
theorem execute_eq_halt_iff {line : String} :
    (s.execute line c).1 = .halt ↔
      s.awaitsPassword = false ∧ (tokens line).head? = some "halt" ∧
        c.takes "System halted.\n" = true := by
  unfold execute
  dsimp only
  split
  · next hdue => simp [hdue]
  · next hdue =>
    have hdue : s.awaitsPassword = false := by simpa using hdue
    cases tokens line with
    | nil => simp
    | cons word args =>
      simp only [hdue, true_and, List.head?_cons, Option.some.injEq]
      exact run_eq_halt_iff

end Session

/-- Whatever two consoles refuse of what a line writes, the volume and the history after the line
are the same on both. The shell stops after a line that is no password, starts with `halt` and has
its message taken by the console, and it goes on after every other line. -/
theorem console_never_decides (s : Session) (line : String) (c d : Console) :
    (s.execute line c).2.1.volume = (s.execute line d).2.1.volume ∧
    (s.execute line c).2.1.history = (s.execute line d).2.1.history ∧
    (s.execute line c).1 =
      if s.awaitsPassword = false ∧ (tokens line).head? = some "halt" ∧
        c.takes "System halted.\n" = true then .halt else .proceed := by
  obtain ⟨data, hsame⟩ := s.data_execute line
  have hdata : (s.execute line c).2.1.data = (s.execute line d).2.1.data :=
    (hsame c).trans (hsame d).symm
  obtain ⟨hvolume, hhistory⟩ := Prod.mk.inj hdata
  refine ⟨hvolume, hhistory, ?_⟩
  cases houtcome : (s.execute line c).1 with
  | halt => exact (if_pos (Session.execute_eq_halt_iff.mp houtcome)).symm
  | proceed =>
    refine (if_neg fun hstops => ?_).symm
    exact Outcome.noConfusion (houtcome.symm.trans (Session.execute_eq_halt_iff.mpr hstops))

end RamShell.Shell
