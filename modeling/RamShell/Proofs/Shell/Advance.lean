import RamShell.Proofs.Shell.Conduct
/-!
# RamShell.Proofs.Shell.Advance

What one line of input does to a session. `Advance` lists the six ways, each with what the session
was and what the line said. It is the deed of a command for most lines; the others are a password,
a line without words, a word that is no command, and the request for the root password.

The main statement is `advance_execute`: every line does one of these on every console. What a
session keeps over its lines is a case analysis on `Advance`, and nothing after this module opens
`Session.execute` for it.
-/

namespace RamShell.Shell

open Command

/-- The session once a line's text is in the history. -/
def Session.recorded (s : Session) (line : String) : Session :=
  { s with history := s.history.push (Text.trim (clamp line)) }

section Recorded

variable (s : Session) (line : String)

@[simp] theorem Session.recorded_volume : (s.recorded line).volume = s.volume := by
  simp only [recorded]

@[simp] theorem Session.recorded_settings : (s.recorded line).settings = s.settings := by
  simp only [recorded]

@[simp] theorem Session.recorded_cwd : (s.recorded line).cwd = s.cwd := by
  simp only [recorded]

@[simp] theorem Session.recorded_user : (s.recorded line).user = s.user := by
  simp only [recorded]

@[simp] theorem Session.recorded_isRoot : (s.recorded line).isRoot = s.isRoot := by
  simp only [recorded]

@[simp] theorem Session.recorded_hostname : (s.recorded line).hostname = s.hostname := by
  simp only [recorded]

@[simp] theorem Session.recorded_awaitsPassword :
    (s.recorded line).awaitsPassword = s.awaitsPassword := by
  simp only [recorded]

@[simp] theorem Session.recorded_resolve (path : String) :
    (s.recorded line).resolve path = s.resolve path := by
  simp only [resolve, recorded]

end Recorded

/-- What a line does to a session. -/
inductive Advance (s : Session) (line : String) : Session → Prop
  /-- A password was due, and is not any more. -/
  | dismissed (hdue : s.awaitsPassword = true) : Advance s line { s with awaitsPassword := false }
  /-- A password was due, and the line is one. -/
  | admitted (hdue : s.awaitsPassword = true)
      (hopen : s.settings.opensRoot (Text.trim (clamp line)) = true) :
      Advance s line (Session.enterRoot { s with awaitsPassword := false })
  /-- The line has no words. -/
  | blank (hdue : s.awaitsPassword = false) (hwords : tokens line = []) : Advance s line s
  /-- The first word is no command, or the question for the root password was not written to its
  end. -/
  | unknown (hdue : s.awaitsPassword = false) : Advance s line (s.recorded line)
  /-- A command did something. -/
  | done (hdue : s.awaitsPassword = false) {t : Session} (hdeed : Deed (s.recorded line) t) :
      Advance s line t
  /-- An ordinary session asked for the root password. -/
  | asked (hdue : s.awaitsPassword = false) (hroot : s.isRoot = false)
      (hline : ∃ args, tokens line = "root" :: args ∨ tokens line = "su" :: "root" :: args) :
      Advance s line { s.recorded line with awaitsPassword := true }

variable {s : Session} {line : String}

/-- A line with words, when no password is due, is recorded and run. -/
theorem Session.execute_of_words (hdue : s.awaitsPassword = false) {word : String}
    {args : List String} (hwords : tokens line = word :: args) (c : Console) :
    s.execute line c = (s.recorded line).run word args c := by
  simp only [execute, hdue, Bool.false_eq_true, if_false, hwords, recorded]

/-! ### Passwords -/

/-- A password line starts a root session if the password is right and the console takes the line end
before it, and does nothing else. -/
theorem play_password (s : Session) (candidate : String) (c : Console) :
    (Script.play (password s candidate) s c).2.1 = s ∨
      (s.settings.opensRoot candidate = true ∧
        (Script.play (password s candidate) s c).2.1 = s.enterRoot) := by
  -- Nothing but the line end stands before the privilege, and what follows it only writes.
  have hfront : Script.Quiet (Script.say ["\n"] ++ [.ink .lightRed]) := by simp [Step.isQuiet]
  have hback (texts : List String) : Script.Quiet (Script.say texts ++ [.plain]) := by
    simp [Step.isQuiet]
  unfold password
  rw [List.append_assoc, Script.play_append]
  split
  · rw [Script.play_of_quiet hfront]
    split
    · next hopen => exact Or.inr ⟨hopen, Script.play_of_quiet (hback _) ..⟩
    · exact Or.inl (Script.play_of_quiet (hback _) ..)
  · exact Or.inl (Script.play_of_quiet hfront ..)

theorem advance_password (hdue : s.awaitsPassword = true) (c : Console) :
    Advance s line (Session.carryOut Builtin.root.name
      (password { s with awaitsPassword := false } (Text.trim (clamp line)))
      { s with awaitsPassword := false } c).2.1 := by
  rw [Session.carryOut_session]
  rcases play_password { s with awaitsPassword := false } (Text.trim (clamp line)) c with
    hsession | ⟨hopen, hsession⟩
  · rw [hsession]
    exact .dismissed hdue
  · rw [hsession]
    exact .admitted hdue hopen

/-! ### Commands -/

/-- Asking for the root password lets an ordinary session wait for it, if the console takes the
question. -/
theorem play_root (hroot : s.isRoot = false) (args : List String) (c : Console) :
    (Script.play (root s args) s c).2.1 = s ∨
      (Script.play (root s args) s c).2.1 = { s with awaitsPassword := true } := by
  have hquestion := Script.quiet_sayIn .lightRed ["Entering root shell...\n", "Password: "]
  unfold root
  rw [if_neg (by simp [hroot]), Script.play_append]
  split
  · exact Or.inr rfl
  · exact Or.inl (Script.play_of_quiet hquestion s c)

theorem advance_command (hdue : s.awaitsPassword = false) {word : String} {args : List String}
    (hwords : tokens line = word :: args) {b : Builtin} (hb : Builtin.lookup? word = some b)
    (c : Console) :
    Advance s line
      (Session.carryOut word (b.handler (s.recorded line) args) (s.recorded line) c).2.1 := by
  rw [Session.carryOut_session]
  rcases conduct_or_asksForRoot (s.recorded line) args b with hconduct | ⟨hasks, hroot, hhandler⟩
  · obtain ⟨t, hdeed, hsession⟩ := hconduct.exists_deed
    rw [hsession c]
    exact .done hdue hdeed
  · have hbefore : s.isRoot = false := (s.recorded_isRoot line).symm.trans hroot
    have hline : ∃ args, tokens line = "root" :: args ∨ tokens line = "su" :: "root" :: args := by
      have hname : b.name = word := by simpa using List.find?_some hb
      subst hname
      rcases hasks with rfl | ⟨rfl, hhead⟩
      · exact ⟨args, Or.inl hwords⟩
      · obtain ⟨rest, rfl⟩ := List.head?_eq_some_iff.mp hhead
        exact ⟨rest, Or.inr hwords⟩
    rw [hhandler]
    rcases play_root hroot args c with hsession | hsession
    · rw [hsession]
      exact .unknown hdue
    · rw [hsession]
      exact .asked hdue hbefore hline

/-! ### Lines -/

/-- Whatever a line says and whatever the console refuses of its output, the line does one of these
things. -/
theorem advance_execute (s : Session) (line : String) (c : Console) :
    Advance s line (s.execute line c).2.1 := by
  unfold Session.execute
  dsimp only
  split
  · next hdue => exact advance_password hdue c
  · next hdue =>
    have hdue : s.awaitsPassword = false := by simpa using hdue
    split
    · next hwords => exact .blank hdue hwords
    · next word args hwords =>
      unfold Session.run
      split
      · have hsession := Script.play_of_quiet ((s.recorded line).quiet_unknownScript word)
          (s.recorded line) c
        rw [Session.display]
        exact hsession.symm ▸ .unknown hdue
      · next b hb => exact advance_command hdue hwords hb c

end RamShell.Shell
