import RamShell.Shell.Script
/-!
# RamShell.Shell.Prompt

The prompt: user, host and working directory, and a sign that tells root from other users. It
exists as a plain text and as a script that colors its parts.
-/

namespace RamShell.Shell

open Console (Color)
open Script (say)

namespace Session

/-- The sign at the end of the prompt. -/
def sign (s : Session) : String := if s.isRoot then "#" else "$"

/-- The working directory as the prompt shows it. One that is too wide is cut to its end after
three dots, unless the width has no room for more than the dots. -/
def shownDir (s : Session) : String :=
  let width := s.settings.promptWidth
  let count := s.cwd.length
  if count ≤ width ∨ width ≤ 3 then s.cwd
  else "..." ++ String.ofList (s.cwd.toList.drop (count - (width - 3)))

/-- The prompt as plain text. -/
def prompt (s : Session) : String :=
  s.user ++ "@" ++ s.hostname ++ ":" ++ s.shownDir ++ s.sign ++ " "

/-- The prompt in colors. There is none while a password is due, whose question is its prompt. -/
def promptScript (s : Session) : Script :=
  if s.awaitsPassword then []
  else
    let accent : Color := if s.isRoot then .lightRed else .lightGreen
    [.ink accent] ++ say [s.user] ++ [.ink .white] ++ say ["@"] ++
      [.ink .lightCyan] ++ say [s.hostname] ++ [.ink .white] ++ say [":"] ++
      [.ink .lightBlue] ++ say [s.shownDir] ++ [.ink accent] ++ say [s.sign, " "] ++ [.plain]

end Session

end RamShell.Shell
