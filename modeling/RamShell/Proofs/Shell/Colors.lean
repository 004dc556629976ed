import RamShell.Proofs.Shell.Independence
/-!
# RamShell.Proofs.Shell.Colors

Who puts the colors back. Commands set colors by hand and set the default ones again at the end of
what they write. A console that refuses a text cuts this short, but then the refusal is reported,
and the report sets the default colors whether its own text is taken or not. So a line leaves the
default colors if the script of its command does so when all of it is taken, and all scripts do
(`tidy_of_handler`).

One message goes another way: that a word is no command is not reported as the failure of a command,
and nothing puts the colors back if a text of it is refused. The main statement is
`colors_put_back_unless_unknown_refused`: this is the only way for colors to stay.
-/

namespace RamShell

namespace Console

variable {c : Console}

/-- The current colors, foreground first. -/
def colors (c : Console) : Color × Color := (c.screen.foreground, c.screen.background)

/-- The colors when nothing else is set. -/
def standardColors : Color × Color := (Color.foreground, Color.background)

@[simp] theorem colors_paint (c : Console) (fg bg : Color) : (c.paint fg bg).colors = (fg, bg) := by
  rw [colors, screen_paint]

@[simp] theorem colors_clear (c : Console) : c.clear.colors = c.colors := by
  rw [colors, screen_clear, colors]

/-- Text has no say in the colors, taken or not. -/
@[simp] theorem colors_write (c : Console) (text : String) : (c.write text).colors = c.colors := by
  rw [colors, screen_write]
  split <;> rfl

end Console

namespace Shell

open Command
open Console (Color standardColors)
open Script (play say sayIn)

/-! ### The colors of scripts -/

/-- The colors after a step. -/
def Step.tint : Step → Color × Color → Color × Color
  | .ink color, _ => (color, Color.background)
  | .plain, _ => standardColors
  | _, colors => colors

namespace Script

/-- The colors after a script that is played to its end. -/
def tint (script : Script) (colors : Color × Color) : Color × Color :=
  script.foldl (fun colors step => step.tint colors) colors

theorem colors_of_played {script : Script} {s : Session} {c : Console}
    (h : (play script s c).1 = .ok ()) : (play script s c).2.2.colors = script.tint c.colors := by
  induction script generalizing s c with
  | nil => rfl
  | cons step rest ih =>
    cases step with
    | print text =>
      rw [play] at h ⊢
      split
      · next htaken =>
        rw [if_pos htaken] at h
        rw [ih h, Console.colors_write]
        rfl
      · next hrefused =>
        rw [if_neg hrefused] at h
        cases h
    | ink color => exact (ih h).trans (by rw [Console.colors_paint]; rfl)
    | plain => exact (ih h).trans (by rw [Console.colors_paint]; rfl)
    | clear => exact (ih h).trans (by rw [Console.colors_clear]; rfl)
    | become t => exact ih h
    | fail e => cases h

/-- Texts alone do not change the colors, wherever the console cuts them short. -/
theorem colors_say (texts : List String) (s : Session) (c : Console) :
    (play (say texts) s c).2.2.colors = c.colors := by
  induction texts generalizing c with
  | nil => rfl
  | cons text texts ih =>
    show (play (.print text :: say texts) s c).2.2.colors = c.colors
    rw [play]
    split
    · rw [ih, Console.colors_write]
    · exact Console.colors_write c text

/-- Texts in a color leave the default colors, or their own if one of them is refused. -/
theorem colors_sayIn (color : Color) (texts : List String) (s : Session) (c : Console) :
    (play (sayIn color texts) s c).2.2.colors =
      if c.takesAll texts then standardColors else (color, Color.background) := by
  show (play (say texts ++ [.plain]) s (c.paint color Color.background)).2.2.colors = _
  rw [← Console.takesAll_paint c color Color.background, play_append]
  split
  · next hok =>
    rw [if_pos (play_say_eq_ok_iff.mp hok)]
    exact Console.colors_paint ..
  · next hcut =>
    have hrefused : ¬ (c.paint color Color.background).takesAll texts = true := fun htaken =>
      absurd (hcut.symm.trans (play_say_eq_ok_iff.mpr htaken)) nofun
    rw [if_neg hrefused, colors_say, Console.colors_paint]

@[simp] theorem tint_append (a b : Script) (colors : Color × Color) :
    tint (a ++ b) colors = tint b (tint a colors) := by
  simp only [tint, List.foldl_append]

@[simp] theorem tint_say (texts : List String) (colors : Color × Color) :
    tint (say texts) colors = colors := by
  induction texts with
  | nil => rfl
  | cons text texts ih => exact ih

@[simp] theorem tint_append_plain (a : Script) (colors : Color × Color) :
    tint (a ++ [.plain]) colors = standardColors := by
  rw [tint_append]
  rfl

@[simp] theorem tint_sayIn (color : Color) (texts : List String) (colors : Color × Color) :
    tint (sayIn color texts) colors = standardColors :=
  tint_append_plain (.ink color :: say texts) colors

/-- A script that leaves the default colors, once it is played to its end, if it found them. -/
def Tidy (script : Script) : Prop := script.tint standardColors = standardColors

variable {a b : Script}

@[simp] theorem tidy_nil : Tidy [] := rfl

@[simp] theorem tidy_say (texts : List String) : Tidy (say texts) := tint_say texts _

@[simp] theorem tidy_sayIn (color : Color) (texts : List String) : Tidy (sayIn color texts) :=
  tint_sayIn color texts _

/-- Whatever comes before, setting the default colors makes up for it. -/
theorem tidy_append_plain (a : Script) : Tidy (a ++ [.plain]) := tint_append_plain a _

theorem tidy_append (ha : Tidy a) (hb : Tidy b) : Tidy (a ++ b) := by
  unfold Tidy at ha hb ⊢
  rw [tint_append, ha, hb]

theorem Lettered.tidy {script : Script} (h : script.Lettered) : script.Tidy := by
  induction h with
  | nil => exact tidy_nil
  | say texts => exact tidy_say texts
  | @colored script _ => exact tidy_append_plain script
  | append _ _ iha ihb => exact tidy_append iha ihb

end Script

/-! ### The colors of commands -/

section Commands

variable (s : Session) (args : List String)

/-- A command leaves the default colors as it found them if all that it writes is taken. -/
theorem Conduct.tidy {s : Session} {parents : Prop} {script : Script}
    (h : Conduct s parents script) : script.Tidy := by
  cases h with
  | clear => rfl
  | tell h => exact h.tidy
  | fail h e => exact Script.tidy_append h.tidy rfl
  | act hdeed h => exact h.tidy
  | edit target hedit h =>
    unfold Script.change
    split
    · exact h.tidy
    · rfl

/-- The question for the root password stands in the default colors: the answer is not red. -/
theorem tidy_root : (root s args).Tidy := by
  unfold root
  split
  · simp
  · exact Script.tidy_append (Script.tidy_sayIn _ _) rfl

theorem tidy_password (candidate : String) : (password s candidate).Tidy :=
  Script.tidy_append_plain _

/-- Every command leaves the default colors as it found them if all that it writes is taken. -/
theorem tidy_of_handler (b : Builtin) : (b.handler s args).Tidy := by
  rcases conduct_or_asksForRoot s args b with hconduct | ⟨-, -, hhandler⟩
  · exact hconduct.tidy
  · rw [hhandler]
    exact tidy_root s args

end Commands

/-! ### The colors of lines -/

namespace Session

/-- A report leaves the default colors, whatever it found and whatever is refused of it. -/
theorem colors_report (s : Session) (name : String) (e : Error) (c : Console) :
    (s.report name e c).2.colors = standardColors :=
  Console.colors_paint ..

theorem colors_carryOut {script : Script} (h : script.Tidy) (name : String) (s : Session)
    {c : Console} (hc : c.colors = standardColors) :
    (carryOut name script s c).2.2.colors = standardColors := by
  cases hplay : (play script s c).1 with
  | ok u =>
    rw [carryOut_of_ok hplay, Script.colors_of_played hplay, hc]
    exact h
  | error e =>
    rw [carryOut_of_error hplay]
    exact colors_report ..

variable {s : Session} {line : String} {c : Console}

/-- A line is no password and its first word no command, and the console refuses a text of the
message that says so. -/
def UnknownRefused (s : Session) (line : String) (c : Console) : Prop :=
  s.awaitsPassword = false ∧ ∃ word args, tokens line = word :: args ∧
    Builtin.lookup? word = none ∧
    c.takesAll [s.hostname, ": command not found: ", word, "\n"] = false

/-- The message for a word that is no command. The hint after it stands in the colors that the
message leaves. -/
theorem colors_unknownScript (s : Session) (word : String) (c : Console) :
    (s.display (s.unknownScript word) c).2.colors =
      if c.takesAll [s.hostname, ": command not found: ", word, "\n"] then standardColors
      else (.lightRed, Color.background) := by
  rw [← Script.colors_sayIn .lightRed _ s c]
  unfold display unknownScript
  rw [Script.play_append]
  split
  · exact Script.colors_say ..
  · rfl

theorem colors_run {word : String} {args : List String} (hc : c.colors = standardColors)
    (h : Builtin.lookup? word = none →
      c.takesAll [s.hostname, ": command not found: ", word, "\n"] = true) :
    (s.run word args c).2.2.colors = standardColors := by
  unfold run
  split
  · next hnone => exact (colors_unknownScript s word c).trans (if_pos (h hnone))
  · next b _ => exact colors_carryOut (tidy_of_handler s args b) word s hc

theorem colors_execute (hc : c.colors = standardColors) (h : ¬ s.UnknownRefused line c) :
    (s.execute line c).2.2.colors = standardColors := by
  unfold execute
  dsimp only
  split
  · exact colors_carryOut (tidy_password _ _) _ _ hc
  · next hdue =>
    have hdue : s.awaitsPassword = false := by simpa using hdue
    split
    · exact hc
    · next word args hwords =>
      refine colors_run hc fun hnone => ?_
      dsimp only
      cases htaken : c.takesAll [s.hostname, ": command not found: ", word, "\n"] with
      | true => rfl
      | false => exact (h ⟨hdue, word, args, hwords, hnone, htaken⟩).elim

theorem colors_execute_of_unknownRefused (h : s.UnknownRefused line c) :
    (s.execute line c).2.2.colors = (.lightRed, Color.background) := by
  obtain ⟨hdue, word, args, hwords, hnone, hrefused⟩ := h
  have hexecute : s.execute line c =
      (.proceed, (s.recorded line).display ((s.recorded line).unknownScript word) c) := by
    rw [execute_of_words hdue hwords, run, hnone]
  rw [hexecute, colors_unknownScript, recorded_hostname, hrefused]
  rfl

end Session

/-- On a console with the default colors, every line leaves the default colors, whatever the console
refuses. The one exception is a word that is no command, if the console refuses a text of the
message that says so: then the message leaves its own color. -/
theorem colors_put_back_unless_unknown_refused (s : Session) (line : String) (c : Console)
    (hc : c.colors = standardColors) :
    (¬ s.UnknownRefused line c → (s.execute line c).2.2.colors = standardColors) ∧
    (s.UnknownRefused line c → (s.execute line c).2.2.colors = (.lightRed, .black)) :=
  ⟨Session.colors_execute hc, Session.colors_execute_of_unknownRefused⟩

/-- A console that refuses everything gets its colors back after the failure of a command, and not
after a word that is none. -/
theorem colors_on_closed_console :
    let s := Session.start (Volume.ofLimits .standard) .standard
    let c : Console := ⟨fun _ _ => false, 0, []⟩
    c.colors = standardColors ∧
      ¬ s.UnknownRefused "cat /missing" c ∧
      (s.execute "cat /missing" c).2.2.colors = (.lightGrey, .black) ∧
      s.UnknownRefused "frobnicate now" c ∧
      (s.execute "frobnicate now" c).2.2.colors = (.lightRed, .black) := by
  intro s c
  have hc : c.colors = standardColors := rfl
  have hcommand : ¬ s.UnknownRefused "cat /missing" c := by
    rintro ⟨-, word, args, hwords, hnone, -⟩
    have hcat : tokens "cat /missing" = ["cat", "/missing"] := by decide
    obtain ⟨rfl, -⟩ := List.cons.inj (hwords.symm.trans hcat)
    exact absurd hnone (by decide)
  have hunknown : s.UnknownRefused "frobnicate now" c :=
    ⟨rfl, "frobnicate", ["now"], by decide, by decide, rfl⟩
  exact ⟨hc, hcommand,
    (colors_put_back_unless_unknown_refused s "cat /missing" c hc).1 hcommand, hunknown,
    (colors_put_back_unless_unknown_refused s "frobnicate now" c hc).2 hunknown⟩

/-- So not every line leaves the default colors: the console stays red after this one. -/
theorem colors_not_always_put_back :
    ¬ ∀ (s : Session) (line : String) (c : Console), c.colors = standardColors →
      (s.execute line c).2.2.colors = standardColors := by
  intro h
  have hred := h (.start (Volume.ofLimits .standard) .standard) "frobnicate"
    ⟨fun _ _ => false, 0, []⟩ rfl
  exact absurd hred (by decide +kernel)

end Shell

end RamShell
