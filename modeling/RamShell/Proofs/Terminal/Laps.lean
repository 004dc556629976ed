import RamShell.Proofs.Shell.Open
import RamShell.Proofs.Shell.Quiet
import RamShell.Terminal
/-!
# RamShell.Proofs.Terminal.Laps

A run of the program as a list of *laps*. A lap is one line: the prompt is shown, the line is echoed
if it comes from a script and is no password, and then it is executed. The program itself keeps only
the state after the last lap; a lap keeps the states around each of its three parts, so what each
part writes can be told apart, and the sessions after all lines can be compared.

Both ways of running lines make their laps with the same recursion, `lapsOf`, and differ in the lap
of one line. That the laps are those of the program is `runScripted_eq` and `runTyped_eq`: the program
ends in the state after the last lap.
-/

namespace RamShell.Terminal

open Shell (Session Outcome Script Steady)

/-! ### What is written between two states -/

namespace State

variable {st st' st'' : State}

theorem display_eq (st : State) (script : Script) :
    st.display script =
      ⟨(st.session.display script st.console).1, (st.session.display script st.console).2⟩ := rfl

/-- A script that only writes leaves the session as it is. -/
theorem display_session {script : Script} (h : script.Quiet) (st : State) :
    (st.display script).session = st.session :=
  Script.play_of_quiet h ..

@[simp] theorem prompt_session (st : State) : st.prompt.session = st.session :=
  display_session st.session.quiet_promptScript st

theorem execute_eq (st : State) (line : String) :
    st.execute line =
      ((st.session.execute line st.console).1,
        ⟨(st.session.execute line st.console).2.1, (st.session.execute line st.console).2.2⟩) := rfl

/-- What went to the terminal since the earlier state `before`. -/
def since (st before : State) : String :=
  Console.Ansi.renderAll (st.console.since before.console)

@[simp] theorem since_self (st : State) : st.since st = "" := by
  simp [since, Console.since, Console.Ansi.renderAll]

theorem since_echo (h : st.console.Open) (line : String) : (st.echo line).since st = line ++ "\n" := by
  have hes : (st.echo line).console = st.console.undergoAll [.write (line ++ "\n")] := rfl
  rw [since, hes, h.since_undergoAll]
  simp [Console.Ansi.renderAll, Console.Ansi.render]

/-- A state that comes after one whose console is open: things have happened on the console, and
nothing else. -/
def Grows (st st' : State) : Prop :=
  st.console.Open ∧ ∃ es, st'.console = st.console.undergoAll es

namespace Grows

theorem refl (h : st.console.Open) : st.Grows st := ⟨h, [], rfl⟩

theorem isOpen (h : st.Grows st') : st'.console.Open := by
  obtain ⟨hopen, es, hes⟩ := h
  exact hes ▸ hopen.undergoAll es

/-- The output of the later state is that of the earlier one and what was written since. -/
theorem output_eq (h : st.Grows st') : st'.output = st.output ++ st'.since st := by
  obtain ⟨hopen, es, hes⟩ := h
  rw [output, since, hes, hopen.since_undergoAll, hopen.events_undergoAll, output]
  simp [Console.Ansi.renderAll, String.join_append]

end Grows

theorem grows_display (h : st.console.Open) (script : Script) : st.Grows (st.display script) :=
  ⟨h, (st.session.steady_display () script).exists_undergoAll h⟩

theorem grows_prompt (h : st.console.Open) : st.Grows st.prompt := grows_display h _

theorem grows_echo (h : st.console.Open) (line : String) : st.Grows (st.echo line) :=
  ⟨h, [.write (line ++ "\n")], rfl⟩

theorem grows_execute (h : st.console.Open) (line : String) : st.Grows (st.execute line).2 := by
  rw [execute_eq]
  exact ⟨h, (st.session.steady_execute line).exists_undergoAll h⟩

end State

/-! ### Laps -/

/-- One line of a run, by the states around its parts. -/
structure Lap where
  /-- The text that is executed. -/
  line : String
  /-- The state before the prompt. -/
  start : State
  /-- The state after the prompt. -/
  prompted : State
  /-- The state in which the line is executed: the prompt is there, and the echo if there is one. -/
  shown : State
  /-- Whether the shell goes on after the line. -/
  outcome : Outcome
  /-- The state after the line. -/
  finish : State

namespace Lap

variable (lap : Lap)

/-- The prompt, as it goes to the terminal. -/
def prompt : String := lap.prompted.since lap.start

/-- What is written of the line itself. -/
def echo : String := lap.shown.since lap.prompted

/-- What executing the line writes. -/
def output : String := lap.finish.since lap.shown

/-- Everything that the lap writes. -/
def text : String := lap.prompt ++ lap.echo ++ lap.output

/-- Whether the line is taken as a password. -/
def secret : Bool := lap.prompted.session.awaitsPassword

/-- The shell after the line. -/
def session : Session := lap.finish.session

/-- Each part of the lap only adds to what is on the console. -/
structure Regular (lap : Lap) : Prop where
  prompted : lap.start.Grows lap.prompted
  shown : lap.prompted.Grows lap.shown
  finish : lap.shown.Grows lap.finish

theorem Regular.output_eq {lap : Lap} (h : lap.Regular) :
    lap.finish.output = lap.start.output ++ lap.text := by
  rw [h.finish.output_eq, h.shown.output_eq, h.prompted.output_eq, text]
  simp only [prompt, echo, output, String.append_assoc]

end Lap

/-- The lap of a line that is executed when the program shows `shown`. -/
def lapOf (st shown : State) (line : String) : Lap :=
  ⟨line, st, st.prompt, shown, (shown.execute line).1, (shown.execute line).2⟩

section Projections

variable (st shown : State) (line : String)

@[simp] theorem lapOf_line : (lapOf st shown line).line = line := rfl

@[simp] theorem lapOf_start : (lapOf st shown line).start = st := rfl

@[simp] theorem lapOf_outcome : (lapOf st shown line).outcome = (shown.execute line).1 := rfl

@[simp] theorem lapOf_finish : (lapOf st shown line).finish = (shown.execute line).2 := rfl

@[simp] theorem lapOf_session :
    (lapOf st shown line).session = (shown.execute line).2.session := rfl

@[simp] theorem lapOf_prompt : (lapOf st shown line).prompt = st.prompt.since st := rfl

@[simp] theorem lapOf_echo : (lapOf st shown line).echo = shown.since st.prompt := rfl

@[simp] theorem lapOf_output :
    (lapOf st shown line).output = (shown.execute line).2.since shown := rfl

@[simp] theorem lapOf_secret :
    (lapOf st shown line).secret = st.prompt.session.awaitsPassword := rfl

end Projections

/-- What the program shows when it executes a line of a script: the line after the prompt, unless
it is a password. -/
def showLine (st : State) (line : String) : State :=
  if st.prompt.session.awaitsPassword then st.prompt else st.prompt.echo line

/-- The lap of a line of a script. -/
def scriptedLap (st : State) (line : String) : Lap := lapOf st (showLine st line) line

/-- The lap of a typed line, if it is text. -/
def typedLap? (st : State) (raw : Bytes) : Option Lap :=
  (Text.decode? raw).map fun text => lapOf st st.prompt (typedText text)

/-- The laps of lines, up to one that stops the shell or has no lap. -/
def lapsOf {α : Type} (lap? : State → α → Option Lap) (st : State) : List α → List Lap
  | [] => []
  | line :: lines =>
    match lap? st line with
    | none => []
    | some lap =>
      match lap.outcome with
      | .halt => [lap]
      | .proceed => lap :: lapsOf lap? lap.finish lines

/-- The laps of a script. -/
def scriptedLaps : State → List String → List Lap := lapsOf fun st line => some (scriptedLap st line)

/-- The laps of typed lines. -/
def typedLaps : State → List Bytes → List Lap := lapsOf typedLap?

/-- Whether a line of the laps stops the shell. -/
def halted (laps : List Lap) : Bool := laps.any fun lap => lap.outcome == .halt

/-- The state after the laps. -/
def lastState (st : State) (laps : List Lap) : State := laps.foldl (fun _ lap => lap.finish) st

section Laps

variable {α : Type} {lap? : State → α → Option Lap} {st : State} {lap : Lap} {laps : List Lap}

@[simp] theorem halted_nil : halted [] = false := rfl

@[simp] theorem halted_cons : halted (lap :: laps) = (lap.outcome == .halt || halted laps) := rfl

@[simp] theorem lastState_nil : lastState st [] = st := rfl

@[simp] theorem lastState_cons : lastState st (lap :: laps) = lastState lap.finish laps := rfl

/-- Nothing is executed after a line that stops the shell. -/
theorem proceed_of_mem_dropLast (st : State) (lines : List α) :
    ∀ lap ∈ (lapsOf lap? st lines).dropLast, lap.outcome = .proceed := by
  induction lines generalizing st with
  | nil => simp [lapsOf]
  | cons line lines ih =>
    rw [lapsOf]
    split
    · simp
    · next lap _ =>
      split
      · simp
      · next hgo =>
        intro lap' hmem
        cases hlaps : lapsOf lap? lap.finish lines with
        | nil => simp [hlaps] at hmem
        | cons next rest =>
          rw [hlaps, List.dropLast_cons_of_ne_nil (by simp), List.mem_cons] at hmem
          rcases hmem with rfl | hmem
          · exact hgo
          · exact ih lap.finish lap' (hlaps ▸ hmem)

/-- On an open console, every lap starts where the one before it ends, and only adds to what is
there. -/
def Proper (lap? : State → α → Option Lap) : Prop :=
  ∀ (st : State) (line : α) (lap : Lap), st.console.Open → lap? st line = some lap →
    lap.start = st ∧ lap.Regular

/-- What a lap has on an open console, all laps have. -/
theorem forall_mem_lapsOf {P : Lap → Prop} (hproper : Proper lap?)
    (hP : ∀ (st : State) (line : α) (lap : Lap), st.console.Open → lap? st line = some lap → P lap)
    (hopen : st.console.Open) (lines : List α) : ∀ lap ∈ lapsOf lap? st lines, P lap := by
  induction lines generalizing st with
  | nil => simp [lapsOf]
  | cons line lines ih =>
    rw [lapsOf]
    split
    · simp
    · next lap hlap =>
      have hregular := (hproper st line lap hopen hlap).2
      split
      · simpa using hP st line lap hopen hlap
      · exact List.forall_mem_cons.mpr ⟨hP st line lap hopen hlap, ih hregular.finish.isOpen⟩

/-- All output of a run is the output before it and what its laps write. -/
theorem output_lastState (hproper : Proper lap?) (hopen : st.console.Open) (lines : List α) :
    (lastState st (lapsOf lap? st lines)).console.Open ∧
      (lastState st (lapsOf lap? st lines)).output =
        st.output ++ String.join ((lapsOf lap? st lines).map Lap.text) := by
  induction lines generalizing st with
  | nil => exact ⟨hopen, by simp [lapsOf]⟩
  | cons line lines ih =>
    rw [lapsOf]
    split
    · exact ⟨hopen, by simp⟩
    · next lap hlap =>
      obtain ⟨hstart, hregular⟩ := hproper st line lap hopen hlap
      have hopen' := hregular.finish.isOpen
      split
      · exact ⟨hopen', by simp [hregular.output_eq, hstart]⟩
      · obtain ⟨hlast, houtput⟩ := ih hopen'
        refine ⟨hlast, ?_⟩
        rw [lastState_cons, houtput, hregular.output_eq, hstart, List.map_cons, String.join_cons,
          String.append_assoc]

end Laps

/-! ### The laps of the program -/

section Program

variable {st shown : State} {line : String}

theorem grows_showLine (hopen : st.console.Open) (line : String) :
    st.prompt.Grows (showLine st line) := by
  have hprompt := (State.grows_prompt hopen).isOpen
  unfold showLine
  split
  · exact .refl hprompt
  · exact State.grows_echo hprompt line

theorem regular_lapOf (hopen : st.console.Open) (hshown : st.prompt.Grows shown) (line : String) :
    (lapOf st shown line).Regular :=
  ⟨State.grows_prompt hopen, hshown, State.grows_execute hshown.isOpen line⟩

theorem proper_scripted : Proper fun st line => some (scriptedLap st line) := by
  rintro st line _ hopen ⟨⟩
  exact ⟨rfl, regular_lapOf hopen (grows_showLine hopen line) line⟩

theorem proper_typed : Proper typedLap? := by
  intro st raw lap hopen hlap
  obtain ⟨text, -, rfl⟩ := Option.map_eq_some_iff.mp hlap
  exact ⟨rfl, regular_lapOf hopen (.refl (State.grows_prompt hopen).isOpen) _⟩

theorem scriptedLaps_cons (st : State) (line : String) (lines : List String) :
    scriptedLaps st (line :: lines) =
      match (scriptedLap st line).outcome with
      | .halt => [scriptedLap st line]
      | .proceed => scriptedLap st line :: scriptedLaps (scriptedLap st line).finish lines := rfl

theorem typedLaps_cons {raw : Bytes} {lap : Lap} (h : typedLap? st raw = some lap)
    (lines : List Bytes) :
    typedLaps st (raw :: lines) =
      match lap.outcome with
      | .halt => [lap]
      | .proceed => lap :: typedLaps lap.finish lines := by
  rw [typedLaps, lapsOf, h]

theorem runScripted_cons (st : State) (line : String) (lines : List String) :
    runScripted st (line :: lines) =
      match (scriptedLap st line).outcome with
      | .halt => (scriptedLap st line).finish
      | .proceed => runScripted (scriptedLap st line).finish lines := by
  rw [runScripted, scriptedLap, lapOf_outcome, lapOf_finish, ← showLine]
  split <;> next hrun => simp only [hrun]

theorem runTyped_cons {raw : Bytes} {lap : Lap} (h : typedLap? st raw = some lap)
    (lines : List Bytes) :
    runTyped st (raw :: lines) =
      match lap.outcome with
      | .halt => (lap.finish, none)
      | .proceed => runTyped lap.finish lines := by
  obtain ⟨text, hdecode, rfl⟩ := Option.map_eq_some_iff.mp h
  simp only [runTyped, takeTyped, hdecode, lapOf]
  cases hrun : st.prompt.execute (typedText text) with
  | mk outcome after => cases outcome <;> rfl

/-- A script's run ends in the state after its last lap. -/
theorem runScripted_eq (st : State) (lines : List String) :
    runScripted st lines = lastState st (scriptedLaps st lines) := by
  induction lines generalizing st with
  | nil => rfl
  | cons line lines ih =>
    rw [runScripted_cons, scriptedLaps_cons]
    split
    · rfl
    · exact ih _

/-- A run over typed text ends in the state after its last lap, where the prompt for another line is
shown unless the shell was stopped. -/
theorem runTyped_eq (st : State) {lines : List Bytes}
    (htext : ∀ raw ∈ lines, (Text.decode? raw).isSome) :
    runTyped st lines =
      (if halted (typedLaps st lines) then lastState st (typedLaps st lines)
        else (lastState st (typedLaps st lines)).prompt.echo "", none) := by
  induction lines generalizing st with
  | nil => rfl
  | cons raw lines ih =>
    obtain ⟨hraw, htext⟩ := List.forall_mem_cons.mp htext
    obtain ⟨lap, hlap⟩ : ∃ lap, typedLap? st raw = some lap :=
      Option.isSome_iff_exists.mp (by rwa [typedLap?, Option.isSome_map])
    rw [runTyped_cons hlap, typedLaps_cons hlap]
    split
    · next hhalt => simp [hhalt]
    · next hgo => simp [hgo, ih _ htext]

end Program

end RamShell.Terminal
