import RamShell.Shell.Execute
import RamShell.Shell.Prompt
/-!
# RamShell.Proofs.Shell.Lettering

How commands write. There are two dozen of them, but they write in one way: texts in the colors that
are set, and texts in other colors with the default ones behind them. A script that is put together
like this is *lettered*, and what all such scripts have in common is an induction over `Lettered`.

This module opens the texts of the commands. Most of them are put together in one place. That of a
tree grows line by line along the drawing, which can fail half way, so it is a property of the drawing
that its output stays lettered (`lettered_draw`).
-/

namespace RamShell.Shell

open Command

/-! ### Lettered scripts -/

/-- Whether a step writes a text or sets a color. -/
def Step.isLetter : Step → Bool
  | .print _ | .ink _ => true
  | _ => false

@[simp] theorem Step.isLetter_print (text : String) : (Step.print text).isLetter = true := rfl

@[simp] theorem Step.isLetter_ink (color : Console.Color) : (Step.ink color).isLetter = true := rfl

namespace Script

/-- A script put together from texts, some of them in colors of their own. -/
inductive Lettered : Script → Prop
  /-- Nothing. -/
  | nil : Lettered []
  /-- Texts. -/
  | say (texts : List String) : Lettered (say texts)
  /-- Texts and colors, and the default colors behind them. -/
  | colored {script : Script} (h : script.all Step.isLetter = true) : Lettered (script ++ [.plain])
  /-- One after the other. -/
  | append {a b : Script} (ha : Lettered a) (hb : Lettered b) : Lettered (a ++ b)

@[simp] theorem all_isLetter_say (texts : List String) :
    (Script.say texts).all Step.isLetter = true := by
  simp [Script.say]

attribute [simp] Lettered.nil Lettered.say

@[simp] theorem lettered_sayIn (color : Console.Color) (texts : List String) :
    Lettered (sayIn color texts) := by
  have hletters : (Step.ink color :: Script.say texts).all Step.isLetter = true := by simp
  exact .colored hletters

theorem lettered_flatMap {α : Type} {as : List α} {f : α → Script}
    (h : ∀ a ∈ as, Lettered (f a)) : Lettered (as.flatMap f) := by
  induction as with
  | nil => exact .nil
  | cons a as ih =>
    obtain ⟨ha, has⟩ := List.forall_mem_cons.mp h
    rw [List.flatMap_cons]
    exact .append ha (ih has)

end Script

open Script (say sayIn)

/-! ### Scripts -/

theorem lettered_bannerScript : bannerScript.Lettered := .append (Script.lettered_sayIn _ _) (.say _)

theorem lettered_greeting : greeting.Lettered :=
  .append (.append lettered_bannerScript (Script.lettered_sayIn _ _)) (.say _)

theorem Session.lettered_promptScript (s : Session) : s.promptScript.Lettered := by
  unfold promptScript
  split
  · exact .nil
  · exact .colored (by simp)

theorem lettered_confirm (texts : List String) : (confirm texts).Lettered :=
  Script.lettered_sayIn _ _

theorem lettered_shortListing (entries : List Volume.Entry) : (shortListing entries).Lettered := by
  refine .colored ?_
  rw [List.all_append, List.all_flatMap, Bool.and_eq_true]
  constructor
  · refine List.all_eq_true.mpr fun (e, i) _ => ?_
    dsimp only
    split <;> rfl
  · split <;> rfl

theorem lettered_longListing (dir : String) (entries : List Volume.Entry) :
    (longListing dir entries).Lettered := by
  unfold longListing
  rw [List.append_assoc]
  refine .append (.say _) (.colored ?_)
  rw [List.all_flatMap]
  exact List.all_eq_true.mpr fun e _ => by simp

/-! ### The drawing of a tree -/

namespace Command.Drawing

variable {α β : Type}

/-- What a part of a drawing leaves, whether it fails or not. -/
def sketch (drawing : Drawing α) (sk : Sketch) : Sketch :=
  match drawing sk with
  | .ok _ sk => sk
  | .error _ sk => sk

/-- A part of a drawing whose output stays lettered, also if it fails on the way. -/
def Lettered (drawing : Drawing α) : Prop :=
  ∀ sk, sk.script.Lettered → (sketch drawing sk).script.Lettered

theorem lettered_pure (a : α) : Lettered (pure a) := fun _ h => h

theorem lettered_throw (e : Error) : Lettered (α := α) (throw e) := fun _ h => h

theorem lettered_get : Lettered get := fun _ h => h

theorem lettered_modify {f : Sketch → Sketch}
    (h : ∀ sk, sk.script.Lettered → (f sk).script.Lettered) : Lettered (modify f) := h

theorem lettered_bind {a : Drawing α} {f : α → Drawing β} (ha : Lettered a)
    (hf : ∀ x, Lettered (f x)) : Lettered (a >>= f) := by
  intro sk hsk
  have hfirst := ha sk hsk
  show (sketch (EStateM.bind a f) sk).script.Lettered
  unfold sketch EStateM.bind at *
  cases hrun : a sk with
  | ok x sk' =>
    rw [hrun] at hfirst
    exact hf x sk' hfirst
  | error e sk' =>
    rw [hrun] at hfirst
    exact hfirst

theorem lettered_forM {f : α → Drawing Unit} (h : ∀ x, Lettered (f x)) (as : List α) :
    Lettered (as.forM f) := by
  induction as with
  | nil => exact lettered_pure ()
  | cons a as ih => exact lettered_bind (h a) fun _ => ih

end Command.Drawing

open Command.Drawing (lettered_pure lettered_throw lettered_get lettered_modify lettered_bind lettered_forM)

theorem lettered_indented (mark : String) {drawing : Drawing Unit} (h : Drawing.Lettered drawing) :
    Drawing.Lettered (indented mark drawing) :=
  lettered_bind lettered_get fun _ =>
    lettered_bind (lettered_modify fun _ hsk => hsk) fun _ =>
      lettered_bind h fun _ => lettered_modify fun _ hsk => hsk

theorem lettered_drawName {below : String → Drawing Unit}
    (h : ∀ child, Drawing.Lettered (below child)) (name : String) (isLast : Bool) :
    Drawing.Lettered (drawName below name isLast) := by
  unfold drawName
  refine lettered_bind (lettered_modify fun _ hsk => .append hsk (.say _)) fun _ => ?_
  split
  · next child _ =>
    refine lettered_bind (lettered_modify fun _ hsk => hsk) fun _ => ?_
    refine lettered_bind (lettered_modify fun _ hsk => ?_) fun _ => h child
    exact .append hsk (Script.lettered_sayIn _ _)
  · refine lettered_bind (lettered_modify fun _ hsk => hsk) fun _ => ?_
    exact lettered_modify fun _ hsk => .append hsk (.say _)

theorem lettered_drawListing (v : Volume) {below : Bool → String → Drawing Unit}
    (h : ∀ isLast child, Drawing.Lettered (below isLast child)) (dir : String) :
    Drawing.Lettered (drawListing v below dir) := by
  unfold drawListing
  split
  · exact lettered_throw _
  · exact lettered_forM (fun (name, _) => lettered_drawName (h _) name _) _

theorem lettered_draw (v : Volume) (levels : Nat) (dir : String) :
    Drawing.Lettered (draw v levels dir) := by
  induction levels generalizing dir with
  | zero => exact lettered_drawListing v (fun _ _ => lettered_pure ()) dir
  | succ levels ih =>
    exact lettered_drawListing v (fun _ _ => lettered_indented _ (ih _)) dir

/-! ### Texts of commands -/

theorem lettered_usageReport (u : Volume.Usage) : (usageReport u).Lettered := by
  have hbytes (label : String) (n : Nat) : (sayBytes label n).Lettered := .say _
  unfold usageReport
  refine .append (.append (.append (.append (.append ?_ (.say _)) ?_) ?_) ?_) (.say _)
  · simp
  · exact hbytes _ _
  · exact hbytes _ _
  · exact hbytes _ _

theorem lettered_helpScript : helpScript.Lettered := by
  have hcategory (category : Category) : (categoryScript category).Lettered := by
    unfold categoryScript
    exact .append (.say _) (Script.lettered_flatMap fun b _ => .say _)
  unfold helpScript
  refine .append (.append (Script.lettered_sayIn _ _) ?_) (.say _)
  exact Script.lettered_flatMap fun category _ => hcategory category

end RamShell.Shell
