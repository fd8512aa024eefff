/-!
# Requests in turn

A service answers a request in some state and goes on to another one.  Two services may have states of
different kinds, such as a table and the list of all that was put into it.  If a relation between their
states makes them give the same answer and leads to related states again, then it does so for requests
of any number (`Simulates.serve`).
-/

namespace ChipAsm

variable {σ τ ρ α : Type}

/-- The state behind requests that come in turn, and the answers to them. -/
def serve (step : σ → ρ → σ × α) : σ → List ρ → σ × List α
  | state, [] => (state, [])
  | state, request :: rest =>
    let (state, answer) := step state request
    let (state, answers) := serve step state rest
    (state, answer :: answers)

/-- In related states two services give the same answer, and related states follow. -/
def Simulates (related : σ → τ → Prop) (step : σ → ρ → σ × α) (step' : τ → ρ → τ × α) : Prop :=
  ∀ state state', related state state' → ∀ request,
    (step state request).2 = (step' state' request).2 ∧
      related (step state request).1 (step' state' request).1

/-- A service answers requests in turn as one that simulates it does. -/
theorem Simulates.serve {related : σ → τ → Prop} {step : σ → ρ → σ × α} {step' : τ → ρ → τ × α}
    (h : Simulates related step step') (requests : List ρ) :
    ∀ {state : σ} {state' : τ}, related state state' →
      (serve step state requests).2 = (serve step' state' requests).2 ∧
        related (serve step state requests).1 (serve step' state' requests).1 := by
  induction requests with
  | nil => exact fun hstates => ⟨rfl, hstates⟩
  | cons request rest ih =>
      intro state state' hstates
      obtain ⟨hanswer, hnext⟩ := h state state' hstates request
      obtain ⟨hanswers, hlast⟩ := ih hnext
      exact ⟨List.cons_eq_cons.2 ⟨hanswer, hanswers⟩, hlast⟩

end ChipAsm
