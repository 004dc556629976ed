import Mathlib.Data.Nat.PSub
import RamShell.Proofs.Shell.Colors
import RamShell.Proofs.Shell.Printed
/-!
# RamShell.Proofs.Shell.Prompt

The two forms of the prompt, and the directory in them. What the colored prompt writes is the plain
one, piece by piece (`text_promptScript`), and it ends with the default colors whatever it began with
(`tint_promptScript`). While a password is due there is no colored prompt, and the console stays as it
is.

A directory that is too wide is shown by its end. `shownDir?` counts as `shownDir` does, but has no
result if a count would be below zero; `shownDir?_eq` says that it always has one, and
`exists_of_cut` how the directory is cut. The main statement is `prompts_agree`.
-/

namespace RamShell

namespace Console

@[simp] theorem clears_paint (c : Console) (fg bg : Color) :
    (c.paint fg bg).screen.clears = c.screen.clears := by
  rw [screen_paint]

/-- Text does not clear the screen, taken or not. -/
@[simp] theorem clears_write (c : Console) (text : String) :
    (c.write text).screen.clears = c.screen.clears := by
  rw [screen_write]
  split <;> rfl

end Console

namespace Shell

open Console (Color standardColors)
open Script (play say)

/-! ### Screens -/

namespace Script

variable {script : Script}

theorem Quiet.clears_play (h : script.Quiet) (s : Session) (c : Console) :
    (play script s c).2.2.screen.clears = c.screen.clears := by
  induction script generalizing c with
  | nil => rfl
  | cons step rest ih =>
    obtain ⟨hstep, hrest⟩ := quiet_cons.mp h
    cases step with
    | print text =>
      rw [play]
      split
      · rw [ih hrest, Console.clears_write]
      · exact Console.clears_write ..
    | ink color => exact (ih hrest _).trans (Console.clears_paint ..)
    | plain => exact (ih hrest _).trans (Console.clears_paint ..)
    | clear | become | fail => exact absurd hstep Bool.false_ne_true

/-- What an open console shows after a lettered script: the text of the script behind what was there,
and the colors that the script ends with. -/
theorem screen_play (h : script.Lettered) (s : Session) {c : Console} (hopen : c.Open) :
    (play script s c).2.2.screen =
      ⟨c.screen.text ++ script.text, (script.tint c.colors).1, (script.tint c.colors).2,
        c.screen.clears⟩ := by
  obtain ⟨hplayed, htext⟩ := printed_play h s hopen
  rw [← htext, ← colors_of_played hplayed, ← h.quiet.clears_play s c]
  rfl

end Script

namespace Session

variable {s : Session}

/-! ### The directory -/

/-- The working directory as the prompt shows it, if no count in it is below zero. -/
def shownDir? (s : Session) : Option String :=
  let width := s.settings.promptWidth
  let count := s.cwd.length
  if count ≤ width ∨ width ≤ 3 then some s.cwd
  else do
    let kept ← width.psub 3
    let hidden ← count.psub kept
    return "..." ++ String.ofList (s.cwd.toList.drop hidden)

/-- No count is below zero: where something is subtracted, there is enough. -/
theorem shownDir?_eq (s : Session) : s.shownDir? = some s.shownDir := by
  unfold shownDir? shownDir
  dsimp only
  split
  · rfl
  · next hcut =>
    have hkept : s.settings.promptWidth.psub 3 = some (s.settings.promptWidth - 3) :=
      Nat.psub_eq_sub (by omega)
    have hhidden : s.cwd.length.psub (s.settings.promptWidth - 3) =
        some (s.cwd.length - (s.settings.promptWidth - 3)) := Nat.psub_eq_sub (by omega)
    rw [hkept, Option.bind_eq_bind, Option.bind_some, hhidden]
    rfl

theorem shownDir_of_fits (h : s.cwd.length ≤ s.settings.promptWidth ∨ s.settings.promptWidth ≤ 3) :
    s.shownDir = s.cwd := if_pos h

/-- A directory that is too wide is cut in two. The second part is shown behind three dots, and
takes the width with them. -/
theorem exists_of_cut (hroom : 3 < s.settings.promptWidth)
    (hwide : s.settings.promptWidth < s.cwd.length) :
    ∃ hidden kept, s.cwd = hidden ++ kept ∧ kept.length = s.settings.promptWidth - 3 ∧
      s.shownDir = "..." ++ kept := by
  let n := s.cwd.length - (s.settings.promptWidth - 3)
  refine ⟨String.ofList (s.cwd.toList.take n), String.ofList (s.cwd.toList.drop n), ?_, ?_, ?_⟩
  · rw [← String.ofList_append, List.take_append_drop, String.ofList_toList]
  · rw [String.length_ofList, List.length_drop, String.length_toList]
    omega
  · exact if_neg (by omega)

/-! ### The prompt -/

/-- What the colored prompt writes is the plain prompt. -/
theorem text_promptScript (hdue : s.awaitsPassword = false) : s.promptScript.text = s.prompt := by
  rw [promptScript, hdue]
  simp [Script.text, say, prompt, String.append_assoc]

/-- The colored prompt ends with the default colors. -/
theorem tint_promptScript (hdue : s.awaitsPassword = false) (colors : Color × Color) :
    s.promptScript.tint colors = standardColors := by
  rw [promptScript, hdue]
  exact Script.tint_append_plain _ colors

end Session

/-- On a console that takes every text, showing the colored prompt goes through and leaves the shell as
it is. If no password is due, the text of the plain prompt comes behind what was on the screen, the
colors are the default ones whatever they were, and nothing is cleared. If one is due, nothing happens
to the console at all. The directory in the prompt is the working directory if it has at most as many
characters as the width says, or if the width is three or less; otherwise it has exactly the width, and
is three dots and the end of the working directory. No count on the way is below zero. -/
theorem prompts_agree (s : Session) {c : Console} (hopen : c.Open) :
    let shown := play s.promptScript s c
    let width := s.settings.promptWidth
    shown.1 = .ok () ∧ shown.2.1 = s ∧
    (s.awaitsPassword = false →
      shown.2.2.screen =
        ⟨c.screen.text ++ s.prompt, Color.foreground, Color.background, c.screen.clears⟩) ∧
    (s.awaitsPassword = true → shown.2.2 = c) ∧
    s.prompt = s.user ++ "@" ++ s.hostname ++ ":" ++ s.shownDir ++ s.sign ++ " " ∧
    s.shownDir? = some s.shownDir ∧
    (s.cwd.length ≤ width ∨ width ≤ 3 → s.shownDir = s.cwd) ∧
    (3 < width → width < s.cwd.length →
      s.shownDir.length = width ∧
        ∃ hidden kept, s.cwd = hidden ++ kept ∧ kept.length = width - 3 ∧
          s.shownDir = "..." ++ kept) := by
  intro shown width
  have hlettered := s.lettered_promptScript
  refine ⟨(Script.printed_play hlettered s hopen).1, Script.play_of_quiet s.quiet_promptScript s c,
    ?_, ?_, rfl, s.shownDir?_eq, Session.shownDir_of_fits, ?_⟩
  · intro hdue
    have hscreen := Script.screen_play hlettered s hopen
    rw [Session.text_promptScript hdue, Session.tint_promptScript hdue] at hscreen
    exact hscreen
  · intro hdue
    have hnone : s.promptScript = [] := if_pos hdue
    show (play s.promptScript s c).2.2 = c
    rw [hnone]
    rfl
  · intro hroom hwide
    obtain ⟨hidden, kept, hcwd, hlength, hshown⟩ := Session.exists_of_cut hroom hwide
    refine ⟨?_, hidden, kept, hcwd, hlength, hshown⟩
    have hdots : "...".length = 3 := rfl
    rw [hshown, String.length_append, hdots, hlength]
    omega

/-- A directory is cut between characters of more than one byte. The colors of the console give way to
the default ones, but not while a password is due. -/
theorem narrow_prompt_on_colored_console :
    let settings := { Settings.standard with promptWidth := 5 }
    let start := Session.start (Volume.ofLimits ⟨8, 16, 64, 128, .relocate⟩) settings
    let s := (start.executeAll .fresh ["mkdir écran→2", "cd écran→2"]).1
    let t := (s.execute "root" .fresh).2.1
    let c := (Console.fresh.write "ok ").paint .lightRed .blue
    (play s.promptScript s c).2.2.screen =
        ⟨"ok user@alphaos:...→2$ ", .lightGrey, .black, 0⟩ ∧
      s.cwd.length = 8 ∧ s.shownDir.length = 5 ∧
      t.awaitsPassword = true ∧ (play t.promptScript t c).2.2 = c := by
  intro settings start s t c
  have hopen : c.Open := fun _ _ => rfl
  have hdue : s.awaitsPassword = false := by decide +kernel
  have hdue' : t.awaitsPassword = true := by decide +kernel
  have hprompt : s.prompt = "user@alphaos:...→2$ " := by decide +kernel
  have hwidth : s.settings.promptWidth = 5 := by decide +kernel
  have hcwd : s.cwd.length = 8 := by decide +kernel
  have hscreen : c.screen = ⟨"ok ", .lightRed, .blue, 0⟩ := by decide
  -- From here on the sessions are not computed any more.
  clear_value s t c
  obtain ⟨-, -, hshown, -, -, -, -, hcut⟩ := prompts_agree s hopen
  obtain ⟨-, -, -, hkept, -⟩ := prompts_agree t hopen
  obtain ⟨hlength, -⟩ := hcut (by omega) (by omega)
  refine ⟨(hshown hdue).trans ?_, hcwd, hlength.trans hwidth, hdue', hkept hdue'⟩
  rw [hscreen, hprompt]
  rfl

end Shell

end RamShell
