import RamShell.Proofs.Shell.Grounded
import RamShell.Proofs.Shell.Advance
import RamShell.Proofs.Volume.Unfinished
/-!
# RamShell.Proofs.Shell.Failure

What a failed command leaves behind. A command fails in one of two ways: it finds something wrong
before it has done anything, or the one change that it asks the volume for fails. Neither leaves a
trace, with one exception: `mkdir -p` is not one change but a row of them, and keeps the directories
that it made before it got stuck.

A text that the console refuses is no failure of the command. So a command fails if it gives up on a
console that takes every text (`Session.Fails`). `play_of_error` says for all commands what they leave
then, on every console, and `mkdir_of_error` says it of the exception. The main statement is
`failed_line_changes_nothing`, for the whole line.
-/

namespace RamShell.Shell

open Volume (Limits Sound)
open Command
open Script (play)

variable {limits : Limits} {s : Session}

/-! ### All or nothing -/

/-- An edit is one change of the volume or none, unless it makes parents. -/
theorem Edit.allOrNothing {parents : Prop} {path : String} {result : Volume.Result Unit}
    (h : Edit s parents path result) (hs : Sound limits s.volume) (hparents : ¬ parents) :
    Volume.AllOrNothing s.volume result := by
  cases h with
  | refused e => exact Volume.allOrNothing_refused _ e
  | create isDirectory => exact hs.allOrNothing (.create path isDirectory)
  | createDirs h => exact absurd h hparents
  | write bytes => exact hs.allOrNothing (.write path bytes)
  | delete => exact hs.allOrNothing (.delete path)
  | setPermissions mode => exact hs.allOrNothing (.setPermissions path mode)

/-- A command that fails leaves the session as it was on every console, unless it makes parents. -/
theorem Conduct.play_of_error {parents : Prop} {script : Script} (h : Conduct s parents script)
    (hs : Sound limits s.volume) (hparents : ¬ parents) {e : Error}
    (he : (play script s .fresh).1 = .error e) (c : Console) : (play script s c).2.1 = s := by
  have hopen := Console.Open.fresh
  cases h with
  | clear => rfl
  | tell h => exact Script.play_of_quiet h.quiet s c
  | fail h e => exact (Script.play_of_quiet_fail h.quiet e s c).2
  | @act t _ script h => exact absurd ((Script.play_of_open h.quiet t hopen).symm.trans he) nofun
  | edit target hedit h =>
    obtain ⟨e, hresult⟩ := Script.error_of_play_change h.quiet hopen he
    rw [Script.play_change h.quiet, hedit.allOrNothing hs hparents e hresult]

/-! ### Commands -/

section Commands

variable (args : List String)

/-- To ask for the root password does not fail. -/
theorem play_root_eq_ok (s : Session) {c : Console} (hopen : c.Open) :
    (play (root s args) s c).1 = .ok () := by
  unfold root
  split
  · exact Script.play_of_open (Script.quiet_sayIn _ _) s hopen
  · rw [Script.play_append, Script.play_of_open (Script.quiet_sayIn _ _) s hopen]
    rfl

/-- Every command but `mkdir -p` leaves the session as it was if it fails. -/
theorem play_of_error (hs : Sound limits s.volume) {b : Builtin}
    (hb : ¬ (b = .mkdir ∧ "-p" ∈ args)) {e : Error}
    (he : (play (b.handler s args) s .fresh).1 = .error e) (c : Console) :
    (play (b.handler s args) s c).2.1 = s := by
  rcases conduct_or_asksForRoot s args b with hconduct | ⟨-, -, hhandler⟩
  · exact hconduct.play_of_error hs hb he c
  · rw [hhandler] at he
    exact absurd ((play_root_eq_ok args s Console.Open.fresh).symm.trans he) nofun

/-- What `mkdir -p` leaves if it fails: directories on the way to the one that was asked for, which
were not there before. -/
theorem mkdir_of_error (hparents : "-p" ∈ args) {e : Error}
    (he : (play (mkdir s args) s .fresh).1 = .error e) (c : Console) :
    (play (mkdir s args) s c).2.1 = s ∨
      ∃ target, args.find? (· != "-p") = some target ∧
        ∃ made, (∀ dir ∈ made,
            Path.Above dir (s.resolve target) ∧ s.volume.table.find? dir = none) ∧
          (play (mkdir s args) s c).2.1 = { s with volume := s.volume.withDirs made } := by
  have hcontains : args.contains "-p" = true := by simpa using hparents
  unfold mkdir at he ⊢
  cases htarget : args.find? (· != "-p") with
  | none => exact Or.inl rfl
  | some target =>
    rw [htarget] at he
    dsimp only at he ⊢
    rw [if_pos hcontains] at he ⊢
    have hquiet := (lettered_confirm ["Directory '", target, "' created"]).quiet
    obtain ⟨e, hfailed⟩ := Script.error_of_play_change hquiet Console.Open.fresh he
    obtain ⟨made, hmade, hvolume⟩ := Volume.createDirs_of_error hfailed
    refine Or.inr ⟨target, rfl, made, hmade, ?_⟩
    rw [Script.play_change hquiet, hvolume]

end Commands

/-! ### Lines -/

namespace Session

/-- Whether the words of a line fail: the first is no command, or the command gives up on a console that
takes every text. -/
def Fails (s : Session) (word : String) (args : List String) : Prop :=
  match Builtin.lookup? word with
  | none => True
  | some b => ∃ e, (play (b.handler s args) s .fresh).1 = .error e

instance (s : Session) (word : String) (args : List String) : Decidable (s.Fails word args) :=
  match hb : Builtin.lookup? word with
  | none => .isTrue (by simp [Fails, hb])
  | some b =>
    match he : (play (b.handler s args) s .fresh).1 with
    | .error e => .isTrue (by simp [Fails, hb, he])
    | .ok script => .isFalse (by simp [Fails, hb, he])

/-- A command fails if it gives up. -/
theorem fails_name_iff {b : Builtin} {args : List String} :
    s.Fails b.name args ↔ ∃ e, (play (b.handler s args) s .fresh).1 = .error e := by
  rw [Fails, Builtin.lookup?_name]

/-- After a command that fails the shell goes on, whatever the console refuses. -/
theorem run_of_error {word : String} {b : Builtin} (hb : Builtin.lookup? word = some b)
    {args : List String} {e : Error} (he : (play (b.handler s args) s .fresh).1 = .error e)
    (c : Console) :
    (s.run word args c).1 = .proceed ∧
      (s.run word args c).2.1 = (play (b.handler s args) s c).2.1 := by
  have hran : ¬ (carryOut word (b.handler s args) s c).1 = true := by
    rw [carryOut_eq_true_iff]
    intro hok
    exact absurd ((Script.play_ok_of_open Console.Open.fresh hok).symm.trans he) nofun
  unfold run
  rw [hb]
  exact ⟨if_neg hran, carryOut_session ..⟩

theorem run_of_unknown {word : String} (hb : Builtin.lookup? word = none) (args : List String)
    (c : Console) : (s.run word args c).1 = .proceed ∧ (s.run word args c).2.1 = s := by
  unfold run
  rw [hb]
  exact ⟨rfl, Script.play_of_quiet (s.quiet_unknownScript word) s c⟩

/-- Words that fail leave the session as it was, but for the directories of a `mkdir -p`. -/
theorem run_of_fails (h : Sound limits s.volume) {word : String} {args : List String}
    (hfails : s.Fails word args) (c : Console) :
    (s.run word args c).1 = .proceed ∧
    ((s.run word args c).2.1 = s ∨
      (word = "mkdir" ∧ "-p" ∈ args ∧
        ∃ target, args.find? (· != "-p") = some target ∧
          ∃ made, (∀ dir ∈ made,
              Path.Above dir (s.resolve target) ∧ s.volume.table.find? dir = none) ∧
            (s.run word args c).2.1 = { s with volume := s.volume.withDirs made })) := by
  unfold Fails at hfails
  cases hb : Builtin.lookup? word with
  | none => exact (run_of_unknown hb args c).imp_right Or.inl
  | some b =>
    rw [hb] at hfails
    obtain ⟨e, he⟩ := hfails
    obtain ⟨houtcome, hsession⟩ := run_of_error hb he c
    refine ⟨houtcome, ?_⟩
    rw [hsession]
    by_cases hmkdir : b = .mkdir ∧ "-p" ∈ args
    · obtain ⟨rfl, hparents⟩ := hmkdir
      have hname : Builtin.mkdir.name = word := Builtin.lookup?_eq_some_iff.mp hb
      exact (mkdir_of_error args hparents he c).imp_right
        fun hmade => ⟨hname.symm, hparents, hmade⟩
    · exact Or.inl (play_of_error args h hmkdir he c)

end Session

/-! ### Reachable volumes -/

section Reachable

variable {line : String} {t : Session}

theorem Edit.reachable {parents : Prop} {path : String} {result : Volume.Result Unit}
    (h : Edit s parents path result) (hs : Volume.Reachable limits s.volume) :
    Volume.Reachable limits result.2 := by
  cases h with
  | refused => exact hs
  | create isDirectory => exact hs.step (.create path isDirectory)
  | createDirs => exact hs.step (.createDirs path)
  | write bytes => exact hs.step (.write path bytes)
  | delete => exact hs.step (.delete path)
  | setPermissions mode => exact hs.step (.setPermissions path mode)

theorem Deed.reachable (h : Deed s t) (hs : Volume.Reachable limits s.volume) :
    Volume.Reachable limits t.volume := by
  cases h with
  | stay | move | leave | rename => exact hs
  | edit _ he => exact he.reachable hs

theorem Advance.reachable (h : Advance s line t) (hs : Volume.Reachable limits s.volume) :
    Volume.Reachable limits t.volume := by
  cases h with
  | dismissed | admitted | blank => exact hs
  | unknown | asked => simpa using hs
  | done _ hdeed => exact hdeed.reachable (by simpa using hs)

/-- Lines ask nothing of a volume that could not be asked of it otherwise. -/
theorem Session.Leads.reachable {lines : List String} (h : s.Leads lines t)
    (hs : Volume.Reachable limits s.volume) : Volume.Reachable limits t.volume := by
  induction h with
  | done => exact hs
  | line text c _ ih => exact ih ((advance_execute _ text c).reachable hs)

end Reachable

/-- A line that fails changes nothing but the history, whatever the console refuses of the report,
and the shell goes on. If the command is `mkdir -p`, the volume may have got directories besides,
at the end and each with a tick of its own; all of them lie above the directory that was asked for
and were not there before. -/
theorem failed_line_changes_nothing (hvolume : Volume.Reachable limits s.volume)
    (hdue : s.awaitsPassword = false) {line word : String} {args : List String}
    (hwords : tokens line = word :: args) (hfails : (s.recorded line).Fails word args)
    (c : Console) :
    (s.execute line c).1 = .proceed ∧
    ((s.execute line c).2.1 = { s with history := s.history.push (Text.trim (clamp line)) } ∨
      (word = "mkdir" ∧ "-p" ∈ args ∧
        ∃ target, args.find? (· != "-p") = some target ∧
          ∃ made, (∀ dir ∈ made,
              Path.Above dir (s.resolve target) ∧ s.volume.table.find? dir = none) ∧
            (s.execute line c).2.1 =
              { s with
                history := s.history.push (Text.trim (clamp line))
                volume := s.volume.withDirs made })) := by
  have hsound : Sound limits (s.recorded line).volume := by
    rw [Session.recorded_volume]
    exact Volume.sound_of_reachable hvolume
  obtain ⟨houtcome, hsession⟩ := Session.run_of_fails hsound hfails c
  rw [Session.execute_of_words hdue hwords]
  refine ⟨houtcome, ?_⟩
  simp only [Session.recorded_volume, Session.recorded_resolve] at hsession
  simp only [Session.recorded] at hsession ⊢
  exact hsession

/-- A text that the arena has no room for leaves no file. A table with room for two more entries
takes two of the three directories that are missing. -/
theorem failures_in_small_volume :
    let start := Session.start (Volume.ofLimits ⟨4, 8, 4, 8, .inPlace⟩) .standard
    let s := (start.executeAll .fresh ["mkdir a", "cd a"]).1
    let t := (s.execute "echo hello > b" ⟨fun _ _ => false, 0, []⟩).2.1
    let u := (s.execute "mkdir -p ../b/c/d" .fresh).2.1
    t = { s with history := s.history.push (Text.trim (clamp "echo hello > b")) } ∧
      u.volume.table.entries.map (·.path) = ["/", "/a", "/b", "/b/c"] ∧
      ∃ made, made ≠ [] ∧ (∀ dir ∈ made, Path.Above dir (s.resolve "../b/c/d")) ∧
        u.volume = s.volume.withDirs made := by
  intro start s t u
  have hvolume : Volume.Reachable ⟨4, 8, 4, 8, .inPlace⟩ s.volume :=
    (start.leads_executeAll .fresh _).reachable .start
  have hdue : s.awaitsPassword = false := by decide +kernel
  have htext : tokens "echo hello > b" = ["echo", "hello", ">", "b"] := by decide +kernel
  have hdirs : tokens "mkdir -p ../b/c/d" = ["mkdir", "-p", "../b/c/d"] := by decide +kernel
  have hpaths : u.volume.table.entries.map (·.path) = ["/", "/a", "/b", "/b/c"] := by
    decide +kernel
  have hchanged : u.volume ≠ s.volume := by decide +kernel
  obtain ⟨-, ht⟩ := failed_line_changes_nothing hvolume hdue htext (by decide +kernel)
    ⟨fun _ _ => false, 0, []⟩
  obtain ⟨-, hu⟩ := failed_line_changes_nothing hvolume hdue hdirs (by decide +kernel) .fresh
  -- From here on the sessions are not computed any more.
  rw [show (s.execute "echo hello > b" ⟨fun _ _ => false, 0, []⟩).2.1 = t from rfl] at ht
  rw [show (s.execute "mkdir -p ../b/c/d" .fresh).2.1 = u from rfl] at hu
  clear_value t u s
  refine ⟨?_, hpaths, ?_⟩
  · rcases ht with ht | ⟨hword, -⟩
    · exact ht
    · exact absurd hword (by decide)
  · rcases hu with hu | ⟨-, -, target, htarget, made, hmade, hu⟩
    · exact absurd (congrArg Session.volume hu) hchanged
    · have hvolumes : u.volume = s.volume.withDirs made := congrArg Session.volume hu
      obtain rfl : "../b/c/d" = target := Option.some.inj (Eq.trans (by decide) htarget)
      refine ⟨made, ?_, fun dir hdir => (hmade dir hdir).1, hvolumes⟩
      rintro rfl
      exact hchanged (hvolumes.trans s.volume.withDirs_nil)

end RamShell.Shell
