import RamShell.Proofs.Shell.Failure
import RamShell.Proofs.Shell.Open
/-!
# RamShell.Proofs.Shell.Printed

What a command prints. On a console that takes every text, all of a lettered script is played, and its
text comes behind what the screen showed before (`Script.printed_play`). So what a command prints is
the text of its script, if it only writes once it has done what it does (`Session.run_of_tell`,
`Session.run_of_become`), or the report of its error if it fails (`Session.run_of_fail`).
-/

namespace RamShell

namespace Console

variable {c : Console}

/-- A text that is taken comes behind what was there. -/
theorem text_write (hopen : c.Open) (t : String) :
    (c.write t).screen.text = c.screen.text ++ t := by
  rw [screen_write, if_pos (hopen.takes t)]

@[simp] theorem text_paint (c : Console) (fg bg : Color) :
    (c.paint fg bg).screen.text = c.screen.text := by
  rw [screen_paint]

end Console

namespace Shell

open Script (play say sayIn)

namespace Script

/-! ### The text of a script -/

@[simp] theorem text_nil : text [] = "" := rfl

theorem text_append (a b : Script) : text (a ++ b) = text a ++ text b := by
  rw [text, List.filterMap_append, String.join_append, text, text]

theorem text_print (t : String) (rest : Script) : text (.print t :: rest) = t ++ text rest := by
  simp only [text, List.filterMap_cons, String.join_cons]

theorem text_say (texts : List String) : text (say texts) = String.join texts := by
  induction texts with
  | nil => rfl
  | cons t texts ih => rw [say, List.map_cons, text_print, ← say, ih, String.join_cons]

/-- Colors are no part of the text. -/
theorem text_sayIn (color : Console.Color) (texts : List String) :
    text (sayIn color texts) = String.join texts := by
  have hcolor : text (.ink color :: say texts) = text (say texts) := rfl
  rw [sayIn, text_append, hcolor, text_say]
  exact String.append_empty

theorem text_flatMap {α : Type} (as : List α) (f : α → Script) :
    text (as.flatMap f) = String.join (as.map fun a => text (f a)) := by
  induction as with
  | nil => rfl
  | cons a as ih => rw [List.flatMap_cons, text_append, ih, List.map_cons, String.join_cons]

/-! ### On an open console -/

theorem Quiet.text_play {script : Script} (h : script.Quiet) (s : Session) {c : Console}
    (hopen : c.Open) : (play script s c).2.2.screen.text = c.screen.text ++ script.text := by
  induction script generalizing c with
  | nil => exact String.append_empty.symm
  | cons step rest ih =>
    obtain ⟨hstep, hrest⟩ := quiet_cons.mp h
    cases step with
    | print t =>
      rw [play, if_pos (hopen.takes t)]
      refine (ih hrest (hopen.undergo (.write t))).trans ?_
      show (c.write t).screen.text ++ text rest = _
      rw [Console.text_write hopen, text_print, String.append_assoc]
    | ink color =>
      refine (ih hrest (hopen.undergo (.paint color Console.Color.background))).trans ?_
      exact congrArg (· ++ text rest) (Console.text_paint ..)
    | plain =>
      refine (ih hrest
        (hopen.undergo (.paint Console.Color.foreground Console.Color.background))).trans ?_
      exact congrArg (· ++ text rest) (Console.text_paint ..)
    | clear | become | fail => exact absurd hstep Bool.false_ne_true

/-- All of a lettered script is played, and its text comes behind what was there. -/
theorem printed_play {script : Script} (h : script.Lettered) (s : Session) {c : Console}
    (hopen : c.Open) :
    (play script s c).1 = .ok () ∧
      (play script s c).2.2.screen.text = c.screen.text ++ script.text :=
  ⟨play_of_open h.quiet s hopen, h.quiet.text_play s hopen⟩

end Script

/-! ### Commands -/

section Run

variable {s t : Session} {b : Builtin} {args : List String} {script : Script} {c : Console}

/-- A command that does what a lettered script does in another session does not fail, leaves that
session, and prints the text of the script. -/
theorem Session.run_of_play (hplay : ∀ c, play (b.handler s args) s c = play script t c)
    (h : script.Lettered) (hopen : c.Open) :
    ¬ s.Fails b.name args ∧ (s.run b.name args c).1 = b.outcome ∧
      (s.run b.name args c).2.1 = t ∧
      (s.run b.name args c).2.2.screen.text = c.screen.text ++ script.text := by
  have hok (c : Console) (hopen : c.Open) : (play (b.handler s args) s c).1 = .ok () := by
    rw [hplay]
    exact Script.play_of_open h.quiet t hopen
  constructor
  · rw [fails_name_iff]
    rintro ⟨e, he⟩
    exact absurd ((hok .fresh Console.Open.fresh).symm.trans he) nofun
  · rw [run, Builtin.lookup?_name]
    dsimp only
    rw [carryOut_of_ok (hok c hopen), hplay]
    exact ⟨rfl, Script.play_of_quiet h.quiet t c, (Script.printed_play h t hopen).2⟩

/-- A command that only writes prints the text of its script. -/
theorem Session.run_of_tell (hscript : b.handler s args = script) (h : script.Lettered)
    (hopen : c.Open) :
    ¬ s.Fails b.name args ∧ (s.run b.name args c).1 = b.outcome ∧
      (s.run b.name args c).2.1 = s ∧
      (s.run b.name args c).2.2.screen.text = c.screen.text ++ script.text :=
  run_of_play (fun c => by rw [hscript]) h hopen

/-- A command that goes on with another session and then only writes leaves that session. -/
theorem Session.run_of_become (hscript : b.handler s args = .become t :: script)
    (h : script.Lettered) (hopen : c.Open) :
    ¬ s.Fails b.name args ∧ (s.run b.name args c).1 = b.outcome ∧
      (s.run b.name args c).2.1 = t ∧
      (s.run b.name args c).2.2.screen.text = c.screen.text ++ script.text :=
  run_of_play (fun c => by rw [hscript]; rfl) h hopen

/-- A report is one line. -/
theorem Session.text_report (s : Session) (name : String) (e : Error) (hopen : c.Open) :
    (s.report name e c).2.screen.text = c.screen.text ++ (name ++ ": " ++ e.message ++ "\n") := by
  let texts := [name, ": ", e.message, "\n"]
  have hquiet : Script.Quiet (.ink .lightRed :: say texts) := by simp [Step.isQuiet]
  have hone : s.report name e c = s.display (sayIn .lightRed texts) c := by
    rw [display, sayIn, Script.play_append, Script.play_of_open hquiet s hopen]
    rfl
  rw [hone, display, (Script.printed_play (Script.lettered_sayIn _ _) s hopen).2,
    Script.text_sayIn]
  simp [texts, String.append_assoc]

theorem Error.line_invalid (name argument : String) :
    name ++ ": " ++ (Error.invalid argument).message ++ "\n" =
      name ++ ": invalid argument: " ++ argument ++ "\n" := by
  have hmessage : (Error.invalid argument).message = "invalid argument: " ++ argument := rfl
  have hcolon : ": invalid argument: " = ": " ++ "invalid argument: " := rfl
  rw [hmessage, hcolon]
  simp only [String.append_assoc]

theorem Error.line_volume (name path : String) (cause : Volume.Error) :
    name ++ ": " ++ (Error.volume path cause).message ++ "\n" =
      name ++ ": " ++ path ++ ": " ++ cause.message ++ "\n" := by
  have hmessage : (Error.volume path cause).message = path ++ ": " ++ cause.message := rfl
  rw [hmessage]
  simp only [String.append_assoc]

/-- A command that gives up before it writes fails, and prints the report of its error. -/
theorem Session.run_of_fail {e : Error}
    (hplay : ∀ c, play (b.handler s args) s c = (.error e, t, c)) (hopen : c.Open) :
    s.Fails b.name args ∧ (s.run b.name args c).1 = .proceed ∧
      (s.run b.name args c).2.1 = t ∧
      (s.run b.name args c).2.2.screen.text =
        c.screen.text ++ (b.name ++ ": " ++ e.message ++ "\n") := by
  have he (c : Console) : (play (b.handler s args) s c).1 = .error e := by rw [hplay]
  refine ⟨fails_name_iff.mpr ⟨e, he .fresh⟩, ?_⟩
  rw [run, Builtin.lookup?_name]
  dsimp only
  rw [carryOut_of_error (he c), hplay]
  exact ⟨if_neg Bool.false_ne_true, report_session .., text_report _ _ _ hopen⟩

end Run

end Shell

end RamShell
