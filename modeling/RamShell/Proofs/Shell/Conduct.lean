import RamShell.Proofs.Shell.Deed
import RamShell.Proofs.Shell.Quiet
/-!
# RamShell.Proofs.Shell.Conduct

How commands go about what they do. A console can cut a command short at any of its texts, and then
nothing of what comes after the text happens. So whatever a command does to the session, it has to do
before its first text. They all do, in one of five ways: they clear the screen, they only write, they
give up, they do something that cannot fail and then write, or they make an edit and then write if it
did not fail. `Conduct` lists them.

One command is different, since what it does must come after its texts: the request for the root
password, by `root` or by `su root`, first writes its question. The main statement is
`conduct_or_asksForRoot`, that all others are of the list. So the session that they leave is the same on
every console, and what they did to it is a `Deed` (`Conduct.exists_deed`). Nothing after this module
opens the commands for it again.
-/

namespace RamShell.Shell

open Command
open Script (play)

/-- How a command goes about what it does. `parents` tells whether it is one that makes directories with
their parents. -/
inductive Conduct (s : Session) (parents : Prop) : Script → Prop
  /-- It clears the screen. -/
  | clear : Conduct s parents [.clear]
  /-- It only writes. -/
  | tell {script : Script} (h : script.Lettered) : Conduct s parents script
  /-- It gives up, and has only written before. -/
  | fail {script : Script} (h : script.Lettered) (e : Error) :
      Conduct s parents (script ++ [.fail e])
  /-- It does something that cannot fail, and then writes. -/
  | act {t : Session} (hdeed : Deed s t) {script : Script} (h : script.Lettered) :
      Conduct s parents (.become t :: script)
  /-- It edits the volume, and writes if that did not fail. -/
  | edit (target : String) {shown : String} {result : Volume.Result Unit}
      (hedit : Edit s parents (s.resolve target) result) {script : Script} (h : script.Lettered) :
      Conduct s parents (.change s shown result script)

/-- What a script leaves that is conducted like this is a deed, and the same on every console. -/
theorem Conduct.exists_deed {s : Session} {parents : Prop} {script : Script}
    (h : Conduct s parents script) : ∃ t, Deed s t ∧ ∀ c, (play script s c).2.1 = t := by
  cases h with
  | clear => exact ⟨s, .stay, fun c => rfl⟩
  | tell h => exact ⟨s, .stay, Script.play_of_quiet h.quiet s⟩
  | fail h e => exact ⟨s, .stay, fun c => (Script.play_of_quiet_fail h.quiet e s c).2⟩
  | @act t hdeed script h => exact ⟨t, hdeed, Script.play_of_quiet h.quiet t⟩
  | @edit target shown result hedit script h =>
    exact ⟨_, .edit target hedit, Script.play_change h.quiet s s⟩

/-! ### Commands -/

section Commands

variable {parents : Prop} (s : Session) (args : List String)

/-- It gives up before anything else. -/
theorem Conduct.giveUp {s : Session} (e : Error) : Conduct s parents [.fail e] := .fail .nil e

theorem conduct_ls : Conduct s parents (ls s args) := by
  unfold ls
  dsimp only
  split
  · exact .giveUp _
  · exact .tell (.say _)
  · split
    · exact .tell (lettered_longListing _ _)
    · exact .tell (lettered_shortListing _)

theorem conduct_cd : Conduct s parents (cd s args) := by
  unfold cd
  dsimp only
  split
  · next dir hmove =>
    refine .act (.move ?_ hmove) .nil
    split
    · exact Or.inr rfl
    · exact Or.inr rfl
    · exact Or.inl rfl
  · exact .giveUp _

theorem conduct_cat : Conduct s parents (cat s args) := by
  unfold cat
  split
  · exact .giveUp _
  · split
    · exact .tell (.say _)
    · exact .giveUp _

theorem conduct_stat : Conduct s parents (stat s args) := by
  unfold stat
  split
  · exact .tell (lettered_usageReport _)
  · split
    · exact .tell (.say _)
    · exact .giveUp _

/-- The drawing of a tree may fail half way, when a part of it is written. -/
theorem conduct_tree : Conduct s parents (tree s args) := by
  unfold tree
  dsimp only
  generalize s.resolve (args.head?.getD ".") = dir
  split
  · exact .giveUp _
  · have hheading : Script.Lettered (Script.sayIn .lightBlue [dir, "\n"]) :=
      Script.lettered_sayIn _ _
    have hdrawn := lettered_draw s.volume (treeDepth - 1) dir .blank .nil
    unfold Drawing.sketch at hdrawn
    split
    · next hdraw =>
      rw [hdraw] at hdrawn
      exact .fail (.append hheading hdrawn) _
    · next hdraw =>
      rw [hdraw] at hdrawn
      exact .tell (.append (.append hheading hdrawn) (.say _))

theorem conduct_help : Conduct s parents (help s args) := by
  unfold help
  split
  · exact .tell lettered_helpScript
  · split
    · exact .giveUp _
    · exact .tell (.append (Script.lettered_sayIn _ _) (.say _))

theorem conduct_info : Conduct s parents (info s args) := by
  refine .tell (.append (.append (.append (Script.lettered_sayIn _ _) (.say _)) ?_) (.say _))
  split <;> simp

theorem conduct_whoami : Conduct s parents (whoami s args) := by
  unfold whoami
  split
  · exact .tell (Script.lettered_sayIn _ _)
  · exact .tell (Script.lettered_sayIn _ _)

theorem conduct_calculator : Conduct s parents (calculator s args) := by
  unfold calculator
  split
  · split
    · exact .giveUp _
    · exact .tell (Script.lettered_sayIn _ _)
  · exact .giveUp _

theorem conduct_history : Conduct s parents (history s args) := by
  refine .tell (.append (Script.lettered_sayIn _ _) ?_)
  split
  · exact .say _
  · exact Script.lettered_flatMap fun numbered _ => .say _

/-- Parents are made only if the option for it is there. -/
theorem conduct_mkdir (hparents : "-p" ∈ args → parents) : Conduct s parents (mkdir s args) := by
  unfold mkdir
  split
  · exact .giveUp _
  · next target _ =>
    refine .edit target ?_ (lettered_confirm _)
    split
    · next hcontains => exact .createDirs (hparents (by simpa using hcontains))
    · exact .of_guarded fun hparent => .create true hparent

theorem conduct_touch : Conduct s parents (touch s args) := by
  unfold touch
  split
  · exact .giveUp _
  · next target _ =>
    refine .edit target ?_ (lettered_confirm _)
    exact .of_guarded fun hparent => .create false hparent

theorem conduct_rm : Conduct s parents (rm s args) := by
  unfold rm
  split
  · exact .giveUp _
  · next target _ =>
    dsimp only
    split
    · exact .giveUp _
    · next hguard =>
      refine .edit target (.delete fun hroot => ?_) (lettered_confirm _)
      simpa [hroot] using hguard

theorem conduct_chmod : Conduct s parents (chmod s args) := by
  unfold chmod
  split
  · split
    · exact .giveUp _
    · next target _ _ mode _ => exact .edit target (.setPermissions mode) (lettered_confirm _)
  · exact .giveUp _

theorem conduct_write : Conduct s parents (write s args) := by
  unfold write
  split
  · next target word ws => exact .edit target (.of_put s _ _ _ false) (lettered_confirm _)
  · exact .giveUp _

theorem conduct_echo : Conduct s parents (echo s args) := by
  unfold echo
  dsimp only
  split
  · exact .tell (.say _)
  · next file _ => exact .edit file (.of_put s _ _ _ false) .nil
  · next file _ => exact .edit file (.of_put s _ _ _ true) .nil

theorem conduct_exit : Conduct s parents (exit s args) := by
  unfold exit
  split
  · next hroot => exact .act (.leave hroot) (Script.lettered_sayIn _ _)
  · exact .tell (.say _)

theorem conduct_hostname : Conduct s parents (hostname s args) := by
  unfold hostname
  split
  · exact .tell (Script.lettered_sayIn _ _)
  · split
    · next hroot => exact .act (.rename hroot _) (Script.lettered_sayIn _ _)
    · exact .giveUp _

/-- A root session is not asked for the password. -/
theorem conduct_root (hroot : s.isRoot = true) : Conduct s parents (root s args) := by
  unfold root
  rw [if_pos hroot]
  exact .tell (Script.lettered_sayIn _ _)

theorem conduct_su (hroot : args.head? = some "root" → s.isRoot = true) :
    Conduct s parents (su s args) := by
  unfold su
  split
  · exact .giveUp _
  · split
    · next htarget => exact conduct_root s _ (hroot (congrArg some htarget))
    · split
      · split
        · exact conduct_exit s _
        · exact .tell (.say _)
      · exact .giveUp _

/-- A command and its arguments that ask for the root password of an ordinary session. -/
def Builtin.AsksForRoot (b : Builtin) (args : List String) : Prop :=
  b = .root ∨ (b = .su ∧ args.head? = some "root")

instance (b : Builtin) (args : List String) : Decidable (b.AsksForRoot args) :=
  inferInstanceAs (Decidable (_ ∨ _))

/-- What asks for the root password does what `root` does. -/
theorem handler_of_asksForRoot {b : Builtin} (h : b.AsksForRoot args) :
    b.handler s args = root s args := by
  rcases h with rfl | ⟨rfl, hhead⟩
  · rfl
  · obtain ⟨rest, rfl⟩ := List.head?_eq_some_iff.mp hhead
    simp [Builtin.handler, su]

/-- Every command is conducted like this, but for the one that asks for the root password. -/
theorem conduct_of_handler {b : Builtin} (hasks : b.AsksForRoot args → s.isRoot = true) :
    Conduct s (b = .mkdir ∧ "-p" ∈ args) (b.handler s args) := by
  cases b with
  | ls => exact conduct_ls s args
  | cd => exact conduct_cd s args
  | mkdir => exact conduct_mkdir s args fun hparents => ⟨rfl, hparents⟩
  | touch => exact conduct_touch s args
  | write => exact conduct_write s args
  | cat => exact conduct_cat s args
  | rm => exact conduct_rm s args
  | chmod => exact conduct_chmod s args
  | tree => exact conduct_tree s args
  | clear => exact .clear
  | info => exact conduct_info s args
  | stat => exact conduct_stat s args
  | whoami => exact conduct_whoami s args
  | su => exact conduct_su s args fun hhead => hasks (Or.inr ⟨rfl, hhead⟩)
  | root => exact conduct_root s args (hasks (Or.inl rfl))
  | exit => exact conduct_exit s args
  | echo => exact conduct_echo s args
  | calculate => exact conduct_calculator s args
  | history => exact conduct_history s args
  | hostname => exact conduct_hostname s args
  | help => exact conduct_help s args
  | pwd | halt => exact .tell (Script.lettered_sayIn _ _)
  | banner => exact .tell lettered_bannerScript

/-- Every command is conducted like this, or it asks an ordinary session for the root password. -/
theorem conduct_or_asksForRoot (b : Builtin) :
    Conduct s (b = .mkdir ∧ "-p" ∈ args) (b.handler s args) ∨
      (b.AsksForRoot args ∧ s.isRoot = false ∧ b.handler s args = root s args) := by
  by_cases hconduct : b.AsksForRoot args → s.isRoot = true
  · exact Or.inl (conduct_of_handler s args hconduct)
  · obtain ⟨hasks, hroot⟩ := Classical.not_imp.mp hconduct
    exact Or.inr ⟨hasks, by simpa using hroot, handler_of_asksForRoot s args hasks⟩

end Commands

end RamShell.Shell
