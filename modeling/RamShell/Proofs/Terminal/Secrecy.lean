import RamShell.Proofs.Shell.Privilege
import RamShell.Proofs.Terminal.Agreement
/-!
# RamShell.Proofs.Terminal.Secrecy

Passwords leave no trace. A shell that waits for a password asks one thing of the next line: whether
it is a password. Two lines with the same answer do the same (`execute_eq_of_awaitsPassword`), and
neither comes into the history.

The program does not add anything: it does not echo the line. So in a script one wrong password can
stand for another. That is an induction over the lines in front of it, which leave the same state in
both runs (`runScripted_append_congr`), and after it both go on from the same state.
-/

namespace RamShell.Shell

variable {s : Session} {line line' : String}

theorem Command.password_congr {candidate candidate' : String}
    (h : s.settings.opensRoot candidate = s.settings.opensRoot candidate') :
    Command.password s candidate = Command.password s candidate' := by
  simp only [Command.password, h]

/-- Lines that are both passwords, or both none, do the same when a password is due. -/
theorem Session.execute_eq_of_awaitsPassword (hdue : s.awaitsPassword = true)
    (h : s.settings.opensRoot (Text.trim (clamp line)) =
      s.settings.opensRoot (Text.trim (clamp line'))) (c : Console) :
    s.execute line c = s.execute line' c := by
  have hscript : Command.password { s with awaitsPassword := false } (Text.trim (clamp line)) =
      Command.password { s with awaitsPassword := false } (Text.trim (clamp line')) :=
    Command.password_congr h
  simp only [execute, hdue, if_true, hscript]

end RamShell.Shell

namespace RamShell.Terminal

open Shell (Session Settings clamp)

variable {st : State}

/-! ### Scripts -/

/-- The shell keeps its settings while a script runs. -/
theorem runScripted_settings (st : State) (lines : List String) :
    (runScripted st lines).session.settings = st.session.settings := by
  induction lines generalizing st with
  | nil => rfl
  | cons line lines ih =>
    have hlap : (scriptedLap st line).finish.session.settings = st.session.settings := by
      rw [scriptedLap, lapOf_finish, State.execute_eq]
      exact (Shell.advance_execute _ line _).settings_eq.trans (by rw [showLine_session])
    rw [runScripted_cons]
    split
    · exact hlap
    · exact (ih _).trans hlap

/-- Two scripts that begin with the same lines run alike if they do from where these lines lead. -/
theorem runScripted_append_congr {front rest rest' : List String}
    (h : runScripted (runScripted st front) rest = runScripted (runScripted st front) rest') :
    runScripted st (front ++ rest) = runScripted st (front ++ rest') := by
  induction front generalizing st with
  | nil => exact h
  | cons line front ih =>
    rw [runScripted_cons] at h
    rw [List.cons_append, List.cons_append, runScripted_cons, runScripted_cons]
    split
    · rfl
    · next hgo =>
      rw [hgo] at h
      exact ih h

/-- Of a line that is taken as a password, the program shows nothing. -/
theorem showLine_of_awaitsPassword (hdue : st.session.awaitsPassword = true) (line : String) :
    showLine st line = st.prompt := by
  rw [showLine, State.prompt_session, if_pos hdue]

/-- A script goes on alike after two lines that are both passwords, or both none. -/
theorem runScripted_eq_of_awaitsPassword (hdue : st.session.awaitsPassword = true)
    {line line' : String}
    (h : st.session.settings.opensRoot (Text.trim (clamp line)) =
      st.session.settings.opensRoot (Text.trim (clamp line'))) (lines : List String) :
    runScripted st (line :: lines) = runScripted st (line' :: lines) := by
  have hsame : (showLine st line).execute line = (showLine st line').execute line' := by
    rw [showLine_of_awaitsPassword hdue, showLine_of_awaitsPassword hdue, State.execute_eq,
      State.execute_eq, State.prompt_session, Session.execute_eq_of_awaitsPassword hdue h]
  rw [runScripted_cons, runScripted_cons, scriptedLap, scriptedLap, lapOf_outcome, lapOf_outcome,
    lapOf_finish, lapOf_finish, hsame]

/-- A line in the middle of a script. -/
theorem scriptLines_middle {front : String} (hfront : front = "" ∨ ∃ f, front = f ++ "\n")
    {middle : String} (hmiddle : '\n' ∉ middle.toList) (back : String) :
    scriptLines (front ++ middle ++ "\n" ++ back) =
      scriptLines front ++ String.ofList (dropReturn middle.toList) :: scriptLines back := by
  have htext : front ++ middle ++ "\n" ++ back =
      front ++ String.ofList (middle.toList ++ '\n' :: back.toList) := by
    rw [← String.toList_inj]
    simp
  rw [htext, scriptLines_append hfront, scriptLines_line hmiddle, String.ofList_toList]

/-- A carriage return at its end does not make a line a password, or no password. -/
theorem trim_clamp_dropReturn (line : String) :
    Text.trim (clamp (String.ofList (dropReturn line.toList))) = Text.trim (clamp line) := by
  obtain ⟨ds, hds, hline⟩ := exists_dropReturn_append line.toList
  rw [← Shell.trim_clamp_append_blanks hds, ← hline, String.ofList_toList]

theorem greeted_session (volume : Volume) :
    (greeted volume).session = .start volume .standard :=
  State.display_session Shell.quiet_greeting (State.start volume)

/-- A shell that waits for a password does the same with any two lines that it accepts, and with any
two that it rejects, to itself and to every console. It does not take the line into its history and
is not waiting any more. So the program does not tell a script with one wrong password from a script
with another one: wherever the lines in front of it leave a shell that waits for a password, a line
that is rejected can be replaced by any other, and nothing that the program leaves behind changes. -/
theorem passwords_leave_no_trace :
    (∀ (s : Session) (c : Console) (line line' : String), s.awaitsPassword = true →
      s.settings.opensRoot (Text.trim (clamp line)) =
        s.settings.opensRoot (Text.trim (clamp line')) →
      s.execute line c = s.execute line' c ∧
        (s.execute line c).2.1.history = s.history ∧
        (s.execute line c).2.1.awaitsPassword = false) ∧
    (∀ (host host' : Host) (path front secret other back : String) (volume : Volume),
      Volume.seeded = .ok volume →
      (front = "" ∨ ∃ f, front = f ++ "\n") → '\n' ∉ secret.toList → '\n' ∉ other.toList →
      host.fileAt path = .ok (Text.encode (front ++ secret ++ "\n" ++ back)) →
      host'.fileAt path = .ok (Text.encode (front ++ other ++ "\n" ++ back)) →
      (runScripted (greeted volume) (scriptLines front)).session.awaitsPassword = true →
      Settings.standard.opensRoot (Text.trim (clamp secret)) = false →
      Settings.standard.opensRoot (Text.trim (clamp other)) = false →
      run host [path] = run host' [path]) := by
  constructor
  · intro s c line line' hdue hsame
    have hadvance := Shell.advance_execute s line c
    exact ⟨Session.execute_eq_of_awaitsPassword hdue hsame c, hadvance.history_eq hdue,
      hadvance.not_awaitsPassword hdue⟩
  · intro host host' path front secret other back volume hseeded hfront hsecret hother hfile hfile'
      hdue hreject hreject'
    cases husage : usageCode? [path] with
    | some code => rw [run, run, husage]
    | none =>
      have hsettings : (runScripted (greeted volume) (scriptLines front)).session.settings =
          .standard := by
        rw [runScripted_settings, greeted_session]
        rfl
      have hrun : runScripted (greeted volume)
          (scriptLines front ++ String.ofList (dropReturn secret.toList) :: scriptLines back) =
          runScripted (greeted volume)
            (scriptLines front ++ String.ofList (dropReturn other.toList) :: scriptLines back) := by
        refine runScripted_append_congr (runScripted_eq_of_awaitsPassword hdue ?_ _)
        rw [hsettings, trim_clamp_dropReturn, trim_clamp_dropReturn, hreject, hreject']
      rw [run_eq husage hseeded, run_eq husage hseeded, runLines_script hfile,
        runLines_script hfile', scriptLines_middle hfront hsecret, scriptLines_middle hfront hother,
        hrun]

/-- Both passwords open the same root shell, and neither is in its history. Of two wrong answers to
a script's question, the program does not tell which was given, not even if the script then asks for
the history. -/
theorem answers_leave_no_trace :
    let asked := ((Session.start (Volume.ofLimits ⟨1, 0, 0, 0, .inPlace⟩) .standard).execute
      "root" .fresh).2.1
    let host (answer : String) : Host :=
      ⟨fun _ => .ok (Text.encode ("root\n" ++ answer ++ "\n" ++ "history")), []⟩
    asked.awaitsPassword = true ∧
      asked.execute "admin" .fresh = asked.execute " root" .fresh ∧
      (asked.execute "admin" .fresh).2.1.history = asked.history ∧
      Settings.standard.opensRoot (Text.trim (clamp "guess")) = false ∧
      Settings.standard.opensRoot (Text.trim (clamp "Admin\r")) = false ∧
      run (host "guess") ["demo.sh"] = run (host "Admin\r") ["demo.sh"] := by
  intro asked host
  obtain ⟨hline, hscript⟩ := passwords_leave_no_trace
  have hdue : asked.awaitsPassword = true := by decide +kernel
  obtain ⟨hsame, hhistory, -⟩ := hline asked .fresh "admin" " root" hdue (by decide +kernel)
  have hguess : Settings.standard.opensRoot (Text.trim (clamp "guess")) = false := by
    decide +kernel
  have hadmin : Settings.standard.opensRoot (Text.trim (clamp "Admin\r")) = false := by
    decide +kernel
  refine ⟨hdue, hsame, hhistory, hguess, hadmin, ?_⟩
  have hasked : Volume.seeded.toOption.map (fun volume =>
      (runScripted (greeted volume) (scriptLines "root\n")).session.awaitsPassword) =
        some true := by decide +kernel
  obtain ⟨volume, hseeded⟩ := exists_seeded
  rw [hseeded] at hasked
  exact hscript (host "guess") (host "Admin\r") "demo.sh" "root\n" "guess" "Admin\r" "history" volume
    hseeded (Or.inr ⟨"root", rfl⟩) (by decide) (by decide) rfl rfl (Option.some.inj hasked) hguess
    hadmin

end RamShell.Terminal
