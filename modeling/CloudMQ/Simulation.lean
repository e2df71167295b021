import CloudMQ.Runs

/-!
Runs of one machine that stand for runs of another.

A step may stand for several steps of the other machine, or for none. A relation between the states
that is kept step by step is kept over whole runs.
-/

namespace CloudMQ.Simulation

open CloudMQ.Runs

variable {σ α τ β : Type*} (step : σ → α → Option σ) (label : σ → α → List β)

variable {step label} {step' : τ → β → Option τ} {ok : σ → α → Prop}

end CloudMQ.Simulation
