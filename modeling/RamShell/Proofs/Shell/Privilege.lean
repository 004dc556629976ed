import RamShell.Proofs.Shell.Advance
import RamShell.Proofs.Shell.Grounded
/-!
# RamShell.Proofs.Shell.Privilege

Who is root, and how one becomes it. Three fields of a session speak of it: whether it is root, the
name of the user, and whether it waits for the root password. They are set by different commands and
on different lines, and `Guarded` says how they fit together. Sessions that are guarded make a small
machine:

```text
ordinary -- root, su root --> waiting -- password --> root
   ^                             |                      |
   +------- any other line ------+                      |
   +------------------- exit, su user ------------------+
```

A fresh session is guarded, and every line keeps it so (`Guarded.advance`), so all sessions are
(`Guarded.leads`). The other lemmas read one arrow, or the lack of one, off what a line can do
(`Advance`). The main statement is `session_guards_root`: the machine is kept by every session,
whatever lines it is given and whatever the consoles refuse, and nobody but root renames the host.
-/

namespace RamShell.Shell

variable {s t : Session} {line : String}

/-! ### Deeds -/

namespace Deed

theorem settings_eq (h : Deed s t) : t.settings = s.settings := by
  cases h <;> rfl

theorem awaitsPassword_eq (h : Deed s t) : t.awaitsPassword = s.awaitsPassword := by
  cases h <;> rfl

/-- A deed changes nothing about the user, or ends a root session. -/
theorem user_eq (h : Deed s t) :
    (t.isRoot = s.isRoot ∧ t.user = s.user) ∨
      (s.isRoot = true ∧ t.isRoot = false ∧ t.user = s.settings.user) := by
  cases h with
  | leave hroot => exact Or.inr ⟨hroot, rfl, rfl⟩
  | _ => exact Or.inl ⟨rfl, rfl⟩

/-- No deed makes a session root. -/
theorem isRoot_eq_false (h : Deed s t) (hroot : s.isRoot = false) : t.isRoot = false := by
  rcases h.user_eq with ⟨hsame, -⟩ | ⟨-, hleft, -⟩
  · exact hsame.trans hroot
  · exact hleft

/-- Only root renames the host. -/
theorem hostname_eq (h : Deed s t) (hroot : s.isRoot = false) : t.hostname = s.hostname := by
  cases h with
  | rename hisRoot => exact absurd (hroot.symm.trans hisRoot) Bool.false_ne_true
  | _ => rfl

end Deed

/-! ### The invariant -/

/-- What a session says of its user fits together. -/
structure Session.Guarded (s : Session) : Prop where
  /-- A root session is not asked for the password. -/
  notAsked : s.awaitsPassword = true → s.isRoot = false
  /-- Root is called so. -/
  rootName : s.isRoot = true → s.user = "root"
  /-- Everyone else is the user of the settings. -/
  userName : s.isRoot = false → s.user = s.settings.user

namespace Session.Guarded

theorem start (volume : Volume) (settings : Settings) : (start volume settings).Guarded :=
  ⟨nofun, nofun, fun _ => rfl⟩

/-- Only the user, the settings and the question count. -/
theorem congr (h : s.Guarded) (hroot : t.isRoot = s.isRoot) (huser : t.user = s.user)
    (hsettings : t.settings = s.settings) (hdue : t.awaitsPassword = s.awaitsPassword) :
    t.Guarded := by
  obtain ⟨hnot, hname, hother⟩ := h
  rw [← hroot, ← hdue] at hnot
  rw [← hroot, ← huser] at hname
  rw [← hroot, ← huser, ← hsettings] at hother
  exact ⟨hnot, hname, hother⟩

theorem recorded (h : s.Guarded) (line : String) : (s.recorded line).Guarded :=
  h.congr (s.recorded_isRoot line) (s.recorded_user line) (s.recorded_settings line)
    (s.recorded_awaitsPassword line)

/-- The end of a root session leaves no question behind, since there was none. -/
theorem deed (h : s.Guarded) (hdeed : Deed s t) : t.Guarded := by
  rcases hdeed.user_eq with ⟨hroot, huser⟩ | ⟨hroot, hleft, huser⟩
  · exact h.congr hroot huser hdeed.settings_eq hdeed.awaitsPassword_eq
  · refine ⟨fun _ => hleft, fun h => ?_, fun _ => huser.trans ?_⟩
    · exact absurd (hleft.symm.trans h) Bool.false_ne_true
    · rw [hdeed.settings_eq]

/-- The question is only for a session that is not root. -/
theorem ask (h : s.Guarded) (hroot : s.isRoot = false) :
    Guarded { s with awaitsPassword := true } :=
  ⟨fun _ => hroot, h.rootName, h.userName⟩

/-- Every line keeps a session guarded, whatever the console refuses. -/
theorem advance (h : s.Guarded) (ht : Advance s line t) : t.Guarded := by
  cases ht with
  | dismissed => exact ⟨nofun, h.rootName, h.userName⟩
  | admitted => exact ⟨nofun, fun _ => rfl, nofun⟩
  | blank => exact h
  | unknown => exact h.recorded line
  | done _ hdeed => exact (h.recorded line).deed hdeed
  | asked _ hroot =>
    have hrecorded : (s.recorded line).isRoot = false := (s.recorded_isRoot line).trans hroot
    exact (h.recorded line).ask hrecorded

/-- All lines keep a session guarded. -/
theorem leads {lines : List String} (h : s.Guarded) (hlines : s.Leads lines t) : t.Guarded := by
  induction hlines with
  | done => exact h
  | line text c _ ih => exact ih (h.advance (advance_execute _ text c))

end Session.Guarded

/-! ### Lines -/

namespace Advance

theorem settings_eq (h : Advance s line t) : t.settings = s.settings := by
  cases h with
  | dismissed | admitted | blank => rfl
  | unknown | asked => simp
  | done _ hdeed => exact hdeed.settings_eq.trans (s.recorded_settings line)

/-- A line that is taken as a password does nothing to the session but to end the question and, if
it is right, to start a root session. -/
theorem eq_of_awaitsPassword (h : Advance s line t) (hdue : s.awaitsPassword = true) :
    t = { s with awaitsPassword := false } ∨
      t = Session.enterRoot { s with awaitsPassword := false } := by
  cases h with
  | dismissed => exact Or.inl rfl
  | admitted => exact Or.inr rfl
  | blank hnone | unknown hnone | done hnone | asked hnone =>
    exact absurd (hnone.symm.trans hdue) Bool.false_ne_true

/-- A line that is taken as a password is the only one that is. -/
theorem not_awaitsPassword (h : Advance s line t) (hdue : s.awaitsPassword = true) :
    t.awaitsPassword = false := by
  rcases h.eq_of_awaitsPassword hdue with rfl | rfl <;> rfl

/-- A line that is taken as a password is not in the history. -/
theorem history_eq (h : Advance s line t) (hdue : s.awaitsPassword = true) :
    t.history = s.history := by
  rcases h.eq_of_awaitsPassword hdue with rfl | rfl <;> rfl

/-- A password is due only after an ordinary session asked for root. -/
theorem asked_of_awaitsPassword (h : Advance s line t) (hdue : t.awaitsPassword = true) :
    s.awaitsPassword = false ∧ s.isRoot = false ∧
      ∃ args, tokens line = "root" :: args ∨ tokens line = "su" :: "root" :: args := by
  -- In all ways but one there is no question after the line, or there was one before it already.
  have hsame (hnone : s.awaitsPassword = false) (h : t.awaitsPassword = s.awaitsPassword) : False :=
    absurd ((h.trans hnone).symm.trans hdue) Bool.false_ne_true
  cases h with
  | dismissed | admitted => exact absurd hdue nofun
  | blank hnone => exact (hsame hnone rfl).elim
  | unknown hnone => exact (hsame hnone (s.recorded_awaitsPassword line)).elim
  | done hnone hdeed =>
    exact (hsame hnone (hdeed.awaitsPassword_eq.trans (s.recorded_awaitsPassword line))).elim
  | asked hnone hroot hline => exact ⟨hnone, hroot, hline⟩

/-- A session becomes root only by a password. -/
theorem opensRoot_of_isRoot (h : Advance s line t) (hbefore : s.isRoot = false)
    (hafter : t.isRoot = true) :
    s.awaitsPassword = true ∧ s.settings.opensRoot (Text.trim (clamp line)) = true := by
  have hrecorded : (s.recorded line).isRoot = false := (s.recorded_isRoot line).trans hbefore
  have hnot (h : t.isRoot = false) : False := absurd (h.symm.trans hafter) Bool.false_ne_true
  cases h with
  | admitted hdue hopen => exact ⟨hdue, hopen⟩
  | dismissed | blank => exact (hnot hbefore).elim
  | unknown | asked => exact (hnot (by simpa using hbefore)).elim
  | done _ hdeed => exact (hnot (hdeed.isRoot_eq_false hrecorded)).elim

/-- Only root renames the host. -/
theorem hostname_eq (h : Advance s line t) (hroot : s.isRoot = false) :
    t.hostname = s.hostname := by
  cases h with
  | dismissed | admitted | blank => rfl
  | unknown | asked => simp
  | done _ hdeed =>
    have hrecorded : (s.recorded line).isRoot = false := (s.recorded_isRoot line).trans hroot
    exact (hdeed.hostname_eq hrecorded).trans (s.recorded_hostname line)

end Advance

/-! ### Every session -/

/-- What a session was started with stays the same over all its lines. -/
theorem Session.Leads.settings_eq {lines : List String} (h : s.Leads lines t) :
    t.settings = s.settings := by
  induction h with
  | done => rfl
  | line text c _ ih => exact ih.trans (advance_execute _ text c).settings_eq

/-- In every state that lines lead to from a freshly started session: who is asked for the password
is not root, root is called so, and everyone else is the user of the settings. Whatever the next
line is and whatever the console refuses of its output: the session becomes root only if a password
was due and the line, cut and trimmed, is one; a password is due after it only if an ordinary session
asked for root by `root` or `su root`; if one was due, none is after it; and the host keeps its
name unless the session was root. -/
theorem session_guards_root (volume : Volume) (settings : Settings) (lines : List String)
    (s : Session) (h : (Session.start volume settings).Leads lines s) :
    (s.awaitsPassword = true → s.isRoot = false) ∧
    (s.isRoot = true → s.user = "root") ∧
    (s.isRoot = false → s.user = settings.user) ∧
    ∀ (line : String) (c : Console) (t : Session), (s.execute line c).2.1 = t →
      (s.isRoot = false → t.isRoot = true →
        s.awaitsPassword = true ∧ Text.trim (clamp line) ∈ settings.rootPasswords) ∧
      (t.awaitsPassword = true → s.awaitsPassword = false ∧ s.isRoot = false ∧
        ∃ args, tokens line = "root" :: args ∨ tokens line = "su" :: "root" :: args) ∧
      (s.awaitsPassword = true → t.awaitsPassword = false) ∧
      (t.hostname ≠ s.hostname → s.isRoot = true) := by
  have hsettings : s.settings = settings := h.settings_eq
  have hguarded : s.Guarded := (Session.Guarded.start volume settings).leads h
  refine ⟨hguarded.notAsked, hguarded.rootName, ?_, ?_⟩
  · intro hroot
    rw [hguarded.userName hroot, hsettings]
  · rintro line c t rfl
    have hadvance := advance_execute s line c
    refine ⟨?_, hadvance.asked_of_awaitsPassword, hadvance.not_awaitsPassword, ?_⟩
    · intro hbefore hafter
      obtain ⟨hdue, hopen⟩ := hadvance.opensRoot_of_isRoot hbefore hafter
      exact ⟨hdue, by simpa [Settings.opensRoot, hsettings] using hopen⟩
    · intro hname
      by_contra hroot
      exact hname (hadvance.hostname_eq (by simpa using hroot))

/-- A blank line uses up the first question. The second one is answered by a password between
spaces, and only then the host can be renamed. -/
theorem root_after_second_question :
    let start := Session.start (Volume.ofLimits ⟨1, 0, 0, 0, .inPlace⟩) .standard
    let lines := ["root", " ", "hostname box", "su root"]
    let s := (start.executeAll .fresh lines).1
    let t := (s.execute "  admin " .fresh).2.1
    let u := (t.execute "hostname box" .fresh).2.1
    s.user = "user" ∧ s.awaitsPassword = true ∧ s.hostname = "alphaos" ∧
      Text.trim (clamp "  admin ") ∈ Settings.standard.rootPasswords ∧
      t.user = "root" ∧ t.awaitsPassword = false ∧ u.hostname = "box" := by
  intro start lines s t u
  have hs : start.Leads lines s := start.leads_executeAll .fresh lines
  have ht : start.Leads (lines ++ ["  admin "]) t := by
    have hsplit : t = (start.executeAll .fresh (lines ++ ["  admin "])).1 := by decide +kernel
    rw [hsplit]
    exact start.leads_executeAll .fresh _
  have hbefore : s.isRoot = false := by decide +kernel
  have hafter : t.isRoot = true := by decide +kernel
  obtain ⟨-, -, huser, hline⟩ := session_guards_root _ _ _ s hs
  obtain ⟨hopen, -, hnone, -⟩ := hline "  admin " .fresh t rfl
  obtain ⟨hdue, hpassword⟩ := hopen hbefore hafter
  obtain ⟨-, hroot, -, -⟩ := session_guards_root _ _ _ t ht
  exact ⟨huser hbefore, hdue, by decide +kernel, hpassword, hroot hafter, hnone hdue,
    by decide +kernel⟩

end RamShell.Shell
