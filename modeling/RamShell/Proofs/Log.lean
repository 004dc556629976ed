/-!
# RamShell.Proofs.Log

Runs of a machine. A machine answers an input and goes over into another state, and its run over a
list of inputs leaves a log: each input with the answer to it. What every step keeps, a run keeps
(`logged_induction`), and two machines that stay in step have one log (`logged_agree`). These are
the only inductions over runs; what is proved of tables, arenas and sessions is proved of one step.
-/

namespace RamShell

variable {σ τ ω α : Type}

/-- Takes inputs in order. Returns each input with its answer, oldest first, and the state that is
left. -/
def logged (step : σ → ω → α × σ) (s : σ) : List ω → List (ω × α) × σ
  | [] => ([], s)
  | input :: inputs =>
    let (answer, s) := step s input
    let (log, s) := logged step s inputs
    ((input, answer) :: log, s)

theorem logged_cons (step : σ → ω → α × σ) (s : σ) (input : ω) (inputs : List ω) :
    logged step s (input :: inputs) =
      ((input, (step s input).1) :: (logged step (step s input).2 inputs).1,
        (logged step (step s input).2 inputs).2) := rfl

/-- What holds of the first state and an empty log, and is kept by a step that adds to the log, holds
at the end of every run. -/
theorem logged_induction {step : σ → ω → α × σ} {motive : List (ω × α) → σ → Prop} {s : σ}
    (start : motive [] s)
    (next : ∀ log s input, motive log s →
      motive (log ++ [(input, (step s input).1)]) (step s input).2)
    (inputs : List ω) : motive (logged step s inputs).1 (logged step s inputs).2 := by
  -- The log of the rest of a run goes on where the log so far ends.
  have hrest : ∀ (inputs : List ω) (log : List (ω × α)) (s : σ), motive log s →
      motive (log ++ (logged step s inputs).1) (logged step s inputs).2 := by
    intro inputs
    induction inputs with
    | nil =>
      intro log s h
      rw [logged, List.append_nil]
      exact h
    | cons input inputs ih =>
      intro log s h
      rw [logged_cons, List.append_cons]
      exact ih _ _ (next log s input h)
  exact hrest inputs [] s start

/-- Two machines that answer alike in related states, and go over into related states, have the same
log. -/
theorem logged_agree {f : σ → ω → α × σ} {g : τ → ω → α × τ} {related : σ → τ → Prop}
    (next : ∀ s t input, related s t →
      (f s input).1 = (g t input).1 ∧ related (f s input).2 (g t input).2)
    {s : σ} {t : τ} (start : related s t) (inputs : List ω) :
    (logged f s inputs).1 = (logged g t inputs).1 ∧
      related (logged f s inputs).2 (logged g t inputs).2 := by
  induction inputs generalizing s t with
  | nil => exact ⟨rfl, start⟩
  | cons input inputs ih =>
    obtain ⟨hanswer, hrelated⟩ := next s t input start
    obtain ⟨hlog, hend⟩ := ih hrelated
    rw [logged_cons, logged_cons, hanswer, hlog]
    exact ⟨rfl, hend⟩

end RamShell
