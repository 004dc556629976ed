import RamShell.Proofs.Terminal.Laps
import RamShell.Proofs.Terminal.Lines
/-!
# RamShell.Proofs.Terminal.Agreement

A text does the same as a script and typed. The two runs are compared lap by lap: they start from the
same session on consoles that take every text, the line that is typed does what the line of the
script does (`Types`), and what stands on the console does not matter (`Steady`). So the sessions
stay the same, and so do the prompts, the outputs and the line that stops the shell, if there is one.

What differs is put together from the laps in the main statement, `script_agrees_with_typing`: a
script echoes its lines, and typing ends with a prompt that nothing is typed at.
-/

namespace RamShell.Terminal

open Shell (Session Outcome Script)

variable {a b : State}

/-- Two laps that do the same. Only what is written of the line itself may differ. -/
structure Lap.Agrees (a b : Lap) : Prop where
  secret : a.secret = b.secret
  prompt : a.prompt = b.prompt
  output : a.output = b.output
  outcome : a.outcome = b.outcome
  session : a.session = b.session

/-! ### One lap -/

/-- Showing a line leaves the session as it is. -/
@[simp] theorem showLine_session (st : State) (line : String) :
    (showLine st line).session = st.session := by
  unfold showLine
  split
  · exact State.prompt_session st
  · exact State.prompt_session st

theorem State.since_prompt_eq (ha : a.console.Open) (hb : b.console.Open)
    (hsession : a.session = b.session) : a.prompt.since a = b.prompt.since b := by
  have hsteady := a.session.steady_display () a.session.promptScript
  rw [prompt, prompt, display_eq, display_eq, since, since, ← hsession]
  exact congrArg Console.Ansi.renderAll (hsteady.agree ha hb).2.2

theorem State.execute_agree (ha : a.console.Open) (hb : b.console.Open)
    (hsession : a.session = b.session) (line : String) :
    (a.execute line).1 = (b.execute line).1 ∧
      (a.execute line).2.session = (b.execute line).2.session ∧
      (a.execute line).2.since a = (b.execute line).2.since b := by
  obtain ⟨houtcome, hafter, hsince⟩ := (a.session.steady_execute line).agree ha hb
  rw [execute_eq, execute_eq, since, since, ← hsession]
  exact ⟨houtcome, hafter, congrArg Console.Ansi.renderAll hsince⟩

/-- A line of a script and a typed line that does the same have laps that agree. -/
theorem agrees_of_types (ha : a.console.Open) (hb : b.console.Open)
    (hsession : a.session = b.session) {raw : Bytes} {line : String} (hline : Types raw line) :
    ∃ lap, typedLap? b raw = some lap ∧ (scriptedLap a line).Agrees lap := by
  obtain ⟨typed, hdecode, hline⟩ := hline
  have hline : b.prompt.execute (typedText typed) = b.prompt.execute line := by
    simp only [State.execute, hline]
  refine ⟨lapOf b b.prompt (typedText typed), by rw [typedLap?, hdecode, Option.map_some], ?_⟩
  obtain ⟨houtcome, hafter, houtput⟩ :=
    State.execute_agree (grows_showLine ha line).isOpen (State.grows_prompt hb).isOpen
      (by simp [hsession]) line
  unfold scriptedLap
  constructor
  case secret => simp only [lapOf_secret, State.prompt_session, hsession]
  case prompt => exact State.since_prompt_eq ha hb hsession
  case output => rw [lapOf_output, lapOf_output, hline, houtput]
  case outcome => rw [lapOf_outcome, lapOf_outcome, hline, houtcome]
  case session => rw [lapOf_session, lapOf_session, hline, hafter]

/-! ### All laps -/

theorem forall₂_agrees (ha : a.console.Open) (hb : b.console.Open) (hsession : a.session = b.session)
    {raws : List Bytes} {lines : List String} (hlines : List.Forall₂ Types raws lines) :
    List.Forall₂ Lap.Agrees (scriptedLaps a lines) (typedLaps b raws) := by
  induction hlines generalizing a b with
  | nil => exact .nil
  | @cons raw line raws lines hline _ ih =>
    obtain ⟨lap, hlap, hagrees⟩ := agrees_of_types ha hb hsession hline
    rw [scriptedLaps_cons, typedLaps_cons hlap, ← hagrees.outcome]
    split
    · exact .cons hagrees .nil
    · exact .cons hagrees (ih (proper_scripted a line _ ha rfl).2.finish.isOpen
        (proper_typed b raw lap hb hlap).2.finish.isOpen hagrees.session)

theorem lastState_session {laps laps' : List Lap} (h : List.Forall₂ Lap.Agrees laps laps')
    (hsession : a.session = b.session) :
    (lastState a laps).session = (lastState b laps').session := by
  induction h generalizing a b with
  | nil => exact hsession
  | cons hagrees _ ih => exact ih hagrees.session

/-- Lines of a script and typed lines that do the same leave the same shell. -/
theorem session_runScripted_eq (ha : a.console.Open) (hb : b.console.Open)
    (hsession : a.session = b.session) {raws : List Bytes} {lines : List String}
    (hlines : List.Forall₂ Types raws lines) :
    (runScripted a lines).session = (runTyped b raws).1.session := by
  have hlast := lastState_session (forall₂_agrees ha hb hsession hlines) hsession
  rw [runScripted_eq, hlast, runTyped_eq b (isSome_of_types hlines)]
  split
  · rfl
  · exact (State.prompt_session _).symm

/-- The lines of a script are executed from the first on, and all of them unless one stops the
shell. -/
theorem lines_scriptedLaps (st : State) (lines : List String) :
    (scriptedLaps st lines).map Lap.line <+: lines ∧
      (halted (scriptedLaps st lines) = false → (scriptedLaps st lines).map Lap.line = lines) := by
  induction lines generalizing st with
  | nil => exact ⟨List.nil_prefix, fun _ => rfl⟩
  | cons line lines ih =>
    rw [scriptedLaps_cons]
    split
    · next hhalt => exact ⟨by simp [scriptedLap, lapOf], by simp [hhalt]⟩
    · next hgo =>
      obtain ⟨hfirst, hall⟩ := ih (scriptedLap st line).finish
      refine ⟨List.cons_prefix_cons.mpr ⟨rfl, hfirst⟩, fun hhalted => ?_⟩
      rw [List.map_cons, hall (by simpa [hgo] using hhalted)]
      rfl

/-- A script's line is echoed unless it is a password. -/
theorem echo_scriptedLap {st : State} (hopen : st.console.Open) (line : String) :
    (scriptedLap st line).echo =
      if (scriptedLap st line).secret then "" else (scriptedLap st line).line ++ "\n" := by
  rw [scriptedLap, lapOf_echo, lapOf_secret, lapOf_line, showLine]
  split
  · exact State.since_self _
  · exact State.since_echo (State.grows_prompt hopen).isOpen line

/-- A typed line is not echoed. -/
theorem echo_typedLap {st : State} {raw : Bytes} {lap : Lap} (h : typedLap? st raw = some lap) :
    lap.echo = "" := by
  obtain ⟨text, -, rfl⟩ := Option.map_eq_some_iff.mp h
  rw [lapOf_echo, State.since_self]

/-! ### Both runs -/

/-- A fresh volume can be seeded. -/
theorem exists_seeded : ∃ volume, Volume.seeded = .ok volume := by
  have hok : Volume.seeded.isOk = true := by decide +kernel
  generalize Volume.seeded = seeded at hok
  cases seeded with
  | ok volume => exact ⟨volume, rfl⟩
  | error e => exact absurd hok Bool.false_ne_true

/-- The shell over a freshly seeded volume once it has greeted. -/
def greeted (volume : Volume) : State := (State.start volume).display Shell.Command.greeting

theorem greeted_isOpen (volume : Volume) : (greeted volume).console.Open :=
  (State.grows_display Console.Open.fresh _).isOpen

variable {host : Host} {volume : Volume}

theorem run_eq {args : List String} (husage : usageCode? args = none)
    (hseeded : Volume.seeded = .ok volume) :
    run host args =
      conclude (runLines host (greeted volume) args).1 (runLines host (greeted volume) args).2 := by
  -- The volume is made opaque first: the kernel would seed it to look into the program.
  rw [run]
  generalize Volume.seeded = seeded at hseeded
  rw [hseeded, husage, greeted]

theorem runLines_script {path text : String} (hfile : host.fileAt path = .ok (Text.encode text))
    (st : State) : runLines host st [path] = (runScripted st (scriptLines text), none) := by
  simp only [runLines, readScript, hfile, Text.decode?_encode]

theorem conclude_none (st : State) :
    conclude st none = ⟨0, st.output ++ Console.Ansi.restore, ""⟩ := rfl

/-- All that a script's run writes before the end of the program. -/
theorem output_runScripted {st : State} (hopen : st.console.Open) (lines : List String) :
    (runScripted st lines).output =
      st.output ++
        String.join ((scriptedLaps st lines).map fun lap => lap.prompt ++ lap.echo ++ lap.output) := by
  rw [runScripted_eq]
  exact (output_lastState proper_scripted hopen lines).2

/-- All that a typed run writes before the end of the program. -/
theorem output_runTyped {st : State} (hopen : st.console.Open) {lines : List Bytes}
    (htext : ∀ raw ∈ lines, (Text.decode? raw).isSome) :
    (runTyped st lines).1.output =
      st.output ++ String.join ((typedLaps st lines).map fun lap => lap.prompt ++ lap.output) ++
        (if halted (typedLaps st lines) then ""
          else (lastState st (typedLaps st lines)).prompt.since (lastState st (typedLaps st lines)) ++
            "\n") := by
  obtain ⟨hlast, houtput⟩ := output_lastState proper_typed hopen lines
  rw [← typedLaps] at hlast houtput
  have hlaps : (typedLaps st lines).map Lap.text =
      (typedLaps st lines).map fun lap => lap.prompt ++ lap.output := by
    refine List.map_congr_left fun lap hlap => ?_
    have hecho := forall_mem_lapsOf proper_typed (fun _ _ _ _ => echo_typedLap) hopen lines lap hlap
    rw [Lap.text, hecho, String.append_empty]
  rw [runTyped_eq st htext, ← hlaps]
  split
  · rw [houtput, String.append_empty]
  · have hprompt := State.grows_prompt hlast
    rw [(State.grows_echo hprompt.isOpen "").output_eq, State.since_echo hprompt.isOpen,
      hprompt.output_eq, houtput, String.empty_append, String.append_assoc]

/-- A text is run as a script and typed. Both runs execute the same number of lines, lap by lap with
the same prompts, the same outputs and the same shells after them; so the first `k` lines leave the
same shell for every `k`. They execute the lines of the text from the first on, all of them unless
one stops the shell, and none after that one. Both end with code 0. The script writes its laps, with
each line after its prompt unless the line is a password. Typing writes the same without the lines,
and if nothing stopped the shell, one more prompt with a line end. -/
theorem script_agrees_with_typing (host : Host) (path text : String)
    (hpath : usageCode? [path] = none) (hfile : host.fileAt path = .ok (Text.encode text))
    (hstdin : host.stdin = Text.encode text) :
    ∃ volume, Volume.seeded = .ok volume ∧
      let scripted := scriptedLaps (greeted volume) (scriptLines text)
      let typed := typedLaps (greeted volume) (typedLines host.stdin)
      let last := lastState (greeted volume) typed
      List.Forall₂ Lap.Agrees scripted typed ∧
      (∀ k, (runScripted (greeted volume) ((scriptLines text).take k)).session =
        (runTyped (greeted volume) ((typedLines host.stdin).take k)).1.session) ∧
      scripted.map Lap.line <+: scriptLines text ∧
      (halted scripted = false → scripted.map Lap.line = scriptLines text) ∧
      (∀ lap ∈ scripted.dropLast, lap.outcome = .proceed) ∧
      (∀ lap ∈ scripted, lap.echo = if lap.secret then "" else lap.line ++ "\n") ∧
      run host [path] =
        ⟨0, (greeted volume).output ++
          String.join (scripted.map fun lap => lap.prompt ++ lap.echo ++ lap.output) ++
          Console.Ansi.restore, ""⟩ ∧
      run host [] =
        ⟨0, (greeted volume).output ++
          String.join (typed.map fun lap => lap.prompt ++ lap.output) ++
          (if halted typed then "" else last.prompt.since last ++ "\n") ++
          Console.Ansi.restore, ""⟩ := by
  obtain ⟨volume, hseeded⟩ := exists_seeded
  refine ⟨volume, hseeded, ?_⟩
  intro scripted typed last
  have hopen := greeted_isOpen volume
  have hlines : List.Forall₂ Types (typedLines host.stdin) (scriptLines text) :=
    hstdin ▸ forall₂_types_scriptLines text
  obtain ⟨hfirst, hall⟩ := lines_scriptedLaps (greeted volume) (scriptLines text)
  refine ⟨forall₂_agrees hopen hopen rfl hlines,
    fun k => session_runScripted_eq hopen hopen rfl (List.forall₂_take k hlines), hfirst, hall,
    proceed_of_mem_dropLast (greeted volume) (scriptLines text), ?_, ?_, ?_⟩
  · refine forall_mem_lapsOf proper_scripted ?_ hopen (scriptLines text)
    rintro st line _ hst ⟨⟩
    exact echo_scriptedLap hst line
  · rw [run_eq hpath hseeded, runLines_script hfile, conclude_none, output_runScripted hopen]
  · have htext := isSome_of_types hlines
    have hfault : (runTyped (greeted volume) (typedLines host.stdin)).2 = none := by
      rw [runTyped_eq _ htext]
    rw [run_eq rfl hseeded, runLines, hfault, conclude_none, output_runTyped hopen htext]

/-- A wrong password and a stop. Carriage returns do not matter, and the last line is not run. -/
theorem script_and_typing_stop_together :
    let text := "root\r\nsecret\nhalt\r\nls"
    let host : Host := ⟨fun _ => .ok (Text.encode text), Text.encode text⟩
    usageCode? ["demo.sh"] = none ∧ host.fileAt "demo.sh" = .ok (Text.encode text) ∧
      host.stdin = Text.encode text ∧
      ∃ volume, Volume.seeded = .ok volume ∧
        (scriptedLaps (greeted volume) (scriptLines text)).map Lap.secret = [false, true, false] ∧
        (typedLaps (greeted volume) (typedLines host.stdin)).length = 3 ∧
        (run host ["demo.sh"]).code = 0 ∧ (run host []).code = 0 := by
  intro text host
  have hsecret : (Volume.seeded.toOption.map fun volume =>
      (scriptedLaps (greeted volume) (scriptLines text)).map Lap.secret) =
        some [false, true, false] := by decide +kernel
  refine ⟨rfl, rfl, rfl, ?_⟩
  obtain ⟨volume, hseeded, hlaps, -, -, -, -, -, hscript, htyped⟩ :=
    script_agrees_with_typing host "demo.sh" text rfl rfl rfl
  rw [hseeded] at hsecret
  have hsecret : (scriptedLaps (greeted volume) (scriptLines text)).map Lap.secret =
      [false, true, false] := Option.some.inj hsecret
  refine ⟨volume, hseeded, hsecret, ?_, by rw [hscript], by rw [htyped]⟩
  rw [← hlaps.length_eq, ← List.length_map Lap.secret, hsecret]
  rfl

end RamShell.Terminal
