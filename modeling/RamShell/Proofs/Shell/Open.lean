import RamShell.Shell.Execute
/-!
# RamShell.Proofs.Shell.Open

Consoles that take every text. What a line of input does depends on the console only by what the
console refuses, so on an *open* console, which refuses nothing, it depends on the session alone:
what happens on the console is put after what has happened there, whatever that is.

`Steady` says this of anything that is done to a console. It holds of playing a script, is kept when
one thing is done after the other (`Steady.bind`), and so holds of a line of input
(`steady_execute`).
-/

namespace RamShell

namespace Console

variable {c : Console}

/-- The console takes every text, now and later. -/
def Open (c : Console) : Prop := ∀ n text, c.accepts n text = true

/-- The console after something has happened on it. -/
def undergo (c : Console) : Event → Console
  | .write text => c.write text
  | .paint fg bg => c.paint fg bg
  | .clear => c.clear

/-- The console after more has happened on it. -/
def undergoAll (c : Console) (es : List Event) : Console := es.foldl undergo c

@[simp] theorem undergoAll_nil (c : Console) : c.undergoAll [] = c := rfl

@[simp] theorem undergoAll_cons (c : Console) (e : Event) (es : List Event) :
    c.undergoAll (e :: es) = (c.undergo e).undergoAll es := rfl

theorem undergoAll_append (c : Console) (es fs : List Event) :
    c.undergoAll (es ++ fs) = (c.undergoAll es).undergoAll fs := List.foldl_append

/-- What has happened on a console since it was as it was `before`. -/
def since (c before : Console) : List Event := c.events.drop before.events.length

namespace Open

theorem fresh : Console.fresh.Open := fun _ _ => rfl

theorem takes (h : c.Open) (text : String) : c.takes text = true := h ..

theorem undergo (h : c.Open) (e : Event) : (c.undergo e).Open := by
  cases e <;> exact h

theorem undergoAll (h : c.Open) (es : List Event) : (c.undergoAll es).Open := by
  induction es generalizing c with
  | nil => exact h
  | cons e es ih => exact ih (h.undergo e)

theorem events_undergo (h : c.Open) (e : Event) : (c.undergo e).events = c.events ++ [e] := by
  cases e with
  | write text =>
    simp only [events, Console.undergo, write, if_pos (h.takes text), List.reverse_cons]
  | paint => exact List.reverse_cons
  | clear => exact List.reverse_cons

/-- All that happens on an open console is among its events, after those that were there. -/
theorem events_undergoAll (h : c.Open) (es : List Event) :
    (c.undergoAll es).events = c.events ++ es := by
  induction es generalizing c with
  | nil => simp
  | cons e es ih => simp [ih (h.undergo e), h.events_undergo]

theorem since_undergoAll (h : c.Open) (es : List Event) : (c.undergoAll es).since c = es := by
  rw [since, h.events_undergoAll, List.drop_left]

end Open

end Console

namespace Shell

open Console (Event)
open Script (play)

/-- Something that is done to a console and leaves a result and a session. On an open console it
does the same whatever has happened there. -/
def Steady {α : Type} (f : Console → α × Session × Console) : Prop :=
  ∃ (a : α) (s : Session) (es : List Event), ∀ c : Console, c.Open → f c = (a, s, c.undergoAll es)

section Steady

variable {α β : Type}

/-- One thing after the other. -/
theorem Steady.bind {f : Console → α × Session × Console}
    {g : α → Session → Console → β × Session × Console} (hf : Steady f)
    (hg : ∀ a s, Steady (g a s)) : Steady fun c => g (f c).1 (f c).2.1 (f c).2.2 := by
  obtain ⟨a, s, es, hf⟩ := hf
  obtain ⟨b, t, fs, hg⟩ := hg a s
  refine ⟨b, t, es ++ fs, fun c hc => ?_⟩
  dsimp only
  rw [hf c hc, hg _ (hc.undergoAll es), Console.undergoAll_append]

theorem Steady.of_event {f : Console → α × Session × Console} (e : Event) (hf : Steady f) :
    Steady fun c => f (c.undergo e) := by
  obtain ⟨a, s, es, hf⟩ := hf
  exact ⟨a, s, e :: es, fun c hc => hf _ (hc.undergo e)⟩

/-- What is done to an open console goes on from where the console was. -/
theorem Steady.exists_undergoAll {f : Console → α × Session × Console} (hf : Steady f) {c : Console}
    (hc : c.Open) : ∃ es, (f c).2.2 = c.undergoAll es := by
  obtain ⟨a, s, es, hf⟩ := hf
  exact ⟨es, by rw [hf c hc]⟩

/-- Two open consoles see the same. -/
theorem Steady.agree {f : Console → α × Session × Console} (hf : Steady f) {c d : Console}
    (hc : c.Open) (hd : d.Open) :
    (f c).1 = (f d).1 ∧ (f c).2.1 = (f d).2.1 ∧ (f c).2.2.since c = (f d).2.2.since d := by
  obtain ⟨a, s, es, hf⟩ := hf
  rw [hf c hc, hf d hd]
  exact ⟨rfl, rfl, (hc.since_undergoAll es).trans (hd.since_undergoAll es).symm⟩

theorem steady_pure (a : α) (s : Session) : Steady fun c => (a, s, c) := ⟨a, s, [], fun _ _ => rfl⟩

end Steady

/-! ### Scripts -/

theorem steady_play (script : Script) (s : Session) : Steady (play script s) := by
  induction script generalizing s with
  | nil => exact steady_pure (Except.ok ()) s
  | cons step rest ih =>
    cases step with
    | print text =>
      obtain ⟨a, t, es, h⟩ := (ih s).of_event (.write text)
      refine ⟨a, t, es, fun c hc => ?_⟩
      rw [play, if_pos (hc.takes text)]
      exact h c hc
    | ink color => exact (ih s).of_event (.paint color Console.Color.background)
    | plain => exact (ih s).of_event (.paint Console.Color.foreground Console.Color.background)
    | clear => exact (ih s).of_event .clear
    | become t => exact ih t
    | fail e => exact steady_pure (Except.error e) s

namespace Session

variable {α : Type} (s : Session)

theorem steady_display (a : α) (script : Script) : Steady fun c => (a, s.display script c) :=
  (steady_play script s).bind fun _ t => steady_pure a t

theorem steady_report (a : α) (name : String) (e : Error) :
    Steady fun c => (a, s.report name e c) :=
  (s.steady_display a _).bind fun _ t => t.steady_display a _

/-! ### Lines -/

theorem steady_carryOut (name : String) (script : Script) : Steady (carryOut name script s) := by
  obtain ⟨ended, t, es, hplay⟩ := steady_play script s
  cases ended with
  | ok u =>
    refine ⟨true, t, es, fun c hc => ?_⟩
    rw [carryOut, hplay c hc]
  | error e =>
    obtain ⟨a, u, fs, hreport⟩ := t.steady_report false name e
    refine ⟨a, u, es ++ fs, fun c hc => ?_⟩
    rw [carryOut, hplay c hc, Console.undergoAll_append]
    exact hreport _ (hc.undergoAll es)

theorem steady_run (word : String) (args : List String) : Steady (s.run word args) := by
  unfold run
  split
  · exact s.steady_display _ _
  · next b _ =>
    exact (s.steady_carryOut word (b.handler s args)).bind fun ran t =>
      steady_pure (if ran then b.outcome else .proceed) t

/-- What a line does on an open console does not depend on what has happened there. -/
theorem steady_execute (line : String) : Steady (s.execute line) := by
  unfold execute
  dsimp only
  split
  · exact (steady_carryOut _ _ _).bind fun _ t => steady_pure Outcome.proceed t
  · split
    · exact steady_pure _ _
    · exact steady_run _ _ _

end Session

end Shell

end RamShell
