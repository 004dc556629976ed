import RamShell.Proofs.Shell.Lettering
import RamShell.Proofs.Shell.Open
/-!
# RamShell.Proofs.Shell.Quiet

Scripts that only write. A script can go on with another session, give up, and clear the screen. One
that does none of it is *quiet*: playing it leaves the session exactly as it is, wherever the console
cuts it short (`play_of_quiet`), and nothing but the console does cut it short (`play_of_open`).

Texts and colors are quiet (`Lettered.quiet`), and so are the prompt, the greeting and the report of a
failure. So what a line leaves of the session is what its command leaves (`carryOut_session`).
-/

namespace RamShell.Shell

open Command

/-! ### Quiet scripts -/

/-- Whether a step only writes: a text behind the others, or a color. -/
def Step.isQuiet : Step → Bool
  | .print _ | .ink _ | .plain => true
  | _ => false

theorem Step.isQuiet_of_isLetter {step : Step} (h : step.isLetter = true) :
    step.isQuiet = true := by
  cases step with
  | print | ink => rfl
  | _ => exact absurd h Bool.false_ne_true

namespace Script

variable {s : Session} {c : Console}

/-- A script that only writes. -/
def Quiet (script : Script) : Prop := ∀ step ∈ script, step.isQuiet = true

@[simp] theorem quiet_nil : Quiet [] := by simp [Quiet]

@[simp] theorem quiet_cons {step : Step} {rest : Script} :
    Quiet (step :: rest) ↔ step.isQuiet = true ∧ Quiet rest := by
  simp [Quiet]

@[simp] theorem quiet_append {a b : Script} : Quiet (a ++ b) ↔ Quiet a ∧ Quiet b := by
  simp [Quiet, or_imp, forall_and]

@[simp] theorem quiet_say (texts : List String) : Quiet (say texts) := by
  simp [Quiet, say, Step.isQuiet]

@[simp] theorem quiet_sayIn (color : Console.Color) (texts : List String) :
    Quiet (sayIn color texts) := by
  simp [sayIn, Step.isQuiet]

/-- Texts and colors are no business of the session. -/
theorem Lettered.quiet {script : Script} (h : script.Lettered) : script.Quiet := by
  induction h with
  | nil => exact quiet_nil
  | say texts => exact quiet_say texts
  | @colored script h =>
    have hscript : Quiet script := fun step hstep =>
      Step.isQuiet_of_isLetter (List.all_eq_true.mp h step hstep)
    exact quiet_append.mpr ⟨hscript, by simp [Step.isQuiet]⟩
  | append _ _ iha ihb => exact quiet_append.mpr ⟨iha, ihb⟩

/-- Playing two scripts in a row: the second is played if the first one comes to its end. -/
theorem play_append (a b : Script) (s : Session) (c : Console) :
    play (a ++ b) s c =
      match (play a s c).1 with
      | .ok () => play b (play a s c).2.1 (play a s c).2.2
      | .error _ => play a s c := by
  induction a generalizing s c with
  | nil => rfl
  | cons step rest ih =>
    cases step with
    | print text =>
      simp only [List.cons_append, play]
      split
      · exact ih ..
      · rfl
    | fail e => rfl
    | _ => exact ih ..

/-- A quiet script leaves the session as it is, whether all of it is taken or not. -/
theorem play_of_quiet {script : Script} (h : script.Quiet) (s : Session) (c : Console) :
    (play script s c).2.1 = s := by
  induction script generalizing c with
  | nil => rfl
  | cons step rest ih =>
    obtain ⟨hstep, hrest⟩ := quiet_cons.mp h
    cases step with
    | print text =>
      rw [play]
      split
      · exact ih hrest _
      · rfl
    | ink | plain => exact ih hrest _
    | clear | become | fail => exact absurd hstep Bool.false_ne_true

/-- A script that gives up behind texts leaves the session as it is, too. -/
theorem play_of_quiet_fail {script : Script} (h : script.Quiet) (e : Error) (s : Session)
    (c : Console) :
    (∃ e', (play (script ++ [.fail e]) s c).1 = .error e') ∧
      (play (script ++ [.fail e]) s c).2.1 = s := by
  have hsession := play_of_quiet h s c
  rw [play_append]
  split
  · exact ⟨⟨e, rfl⟩, hsession⟩
  · next hcut => exact ⟨⟨_, hcut⟩, hsession⟩

/-- On a console that takes every text, a quiet script comes to its end. -/
theorem play_of_open {script : Script} (h : script.Quiet) (s : Session) {c : Console}
    (hopen : c.Open) : (play script s c).1 = .ok () := by
  induction script generalizing c with
  | nil => rfl
  | cons step rest ih =>
    obtain ⟨hstep, hrest⟩ := quiet_cons.mp h
    cases step with
    | print text =>
      rw [play, if_pos (hopen.takes text)]
      exact ih hrest (hopen.undergo (.write text))
    | ink color => exact ih hrest (hopen.undergo (.paint color Console.Color.background))
    | plain =>
      exact ih hrest (hopen.undergo (.paint Console.Color.foreground Console.Color.background))
    | clear | become | fail => exact absurd hstep Bool.false_ne_true

/-- On a console that takes every text, a script comes to its end if it does so on any console. -/
theorem play_ok_of_open {script : Script} {s : Session} {c d : Console} (hopen : d.Open)
    (h : (play script s c).1 = .ok ()) : (play script s d).1 = .ok () := by
  induction script generalizing s c d with
  | nil => rfl
  | cons step rest ih =>
    cases step with
    | print text =>
      rw [play] at h
      rw [play, if_pos (hopen.takes text)]
      split at h
      · exact ih (hopen.undergo (.write text)) h
      · cases h
    | ink color => exact ih (hopen.undergo (.paint color Console.Color.background)) h
    | plain =>
      exact ih (hopen.undergo (.paint Console.Color.foreground Console.Color.background)) h
    | clear => exact ih (hopen.undergo .clear) h
    | become t => exact ih hopen h
    | fail e => cases h

section Change

variable {shown : String} {result : Volume.Result Unit} {script : Script}

/-- A change leaves the volume that it made, also if it failed. -/
theorem play_change (h : script.Quiet) (s t : Session) (c : Console) :
    (play (change s shown result script) t c).2.1 = { s with volume := result.2 } := by
  rw [change, play]
  split
  · exact play_of_quiet h ..
  · rfl

/-- On a console that takes every text, a change gives up only if the volume refused it. -/
theorem error_of_play_change (h : script.Quiet) {s t : Session} {c : Console} (hopen : c.Open)
    {e : Error} (he : (play (change s shown result script) t c).1 = .error e) :
    ∃ e, result.1 = .error e := by
  rw [change, play] at he
  split at he
  · cases (play_of_open h _ hopen).symm.trans he
  · next e hresult => exact ⟨e, hresult⟩

end Change

end Script

open Script (say sayIn)

/-! ### Reports -/

namespace Session

/-- A report leaves the session as it is. -/
@[simp] theorem report_session (s : Session) (name : String) (e : Error) (c : Console) :
    (s.report name e c).1 = s := by
  have hmessage : Script.Quiet (.ink .lightRed :: say [name, ": ", e.message, "\n"]) := by
    simp [Step.isQuiet]
  have hreset : Script.Quiet [.plain] := by simp [Step.isQuiet]
  simp [report, display, Script.play_of_quiet hmessage, Script.play_of_quiet hreset]

/-- Carrying out a script leaves the session that playing it does, whatever is reported after it. -/
theorem carryOut_session (name : String) (script : Script) (s : Session) (c : Console) :
    (carryOut name script s c).2.1 = (script.play s c).2.1 := by
  unfold carryOut
  split
  · next hplay => rw [hplay]
  · next hplay => rw [hplay, report_session]

/-- A script that comes to its end is all that there is. -/
theorem carryOut_of_ok {name : String} {script : Script} {s : Session} {c : Console}
    (h : (script.play s c).1 = .ok ()) :
    carryOut name script s c = (true, (script.play s c).2) := by
  unfold carryOut
  split
  · next hplay => rw [hplay]
  · next hplay =>
    rw [hplay] at h
    exact absurd h nofun

/-- What ends a script early is reported. -/
theorem carryOut_of_error {name : String} {script : Script} {s : Session} {c : Console} {e : Error}
    (h : (script.play s c).1 = .error e) :
    carryOut name script s c =
      (false, (script.play s c).2.1.report name e (script.play s c).2.2) := by
  unfold carryOut
  split
  · next hplay =>
    rw [hplay] at h
    exact absurd h nofun
  · next hplay =>
    rw [hplay] at h
    obtain rfl := Except.error.inj h
    rw [hplay]

/-- There is nothing to report if a script comes to its end. -/
theorem carryOut_eq_true_iff {name : String} {script : Script} {s : Session} {c : Console} :
    (carryOut name script s c).1 = true ↔ (script.play s c).1 = .ok () := by
  cases hplay : (script.play s c).1 with
  | ok u =>
    rw [carryOut_of_ok hplay]
    exact iff_of_true rfl rfl
  | error e =>
    rw [carryOut_of_error hplay]
    exact iff_of_false Bool.false_ne_true nofun

end Session

/-! ### What is always quiet -/

@[simp] theorem quiet_greeting : greeting.Quiet := lettered_greeting.quiet

/-- The prompt only writes. -/
@[simp] theorem Session.quiet_promptScript (s : Session) : s.promptScript.Quiet :=
  s.lettered_promptScript.quiet

/-- The message for a word that is no command only writes. -/
@[simp] theorem Session.quiet_unknownScript (s : Session) (word : String) :
    (s.unknownScript word).Quiet := by
  simp [Session.unknownScript]

end RamShell.Shell
