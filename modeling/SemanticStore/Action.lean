import SemanticStore.Fault

/-!
# Actions

An action runs on a state and ends with a result or a fault; the state after it is there in both
cases.
-/

namespace SemanticStore

/-- A computation on states of type `σ` that may fail. -/
abbrev Action (σ α : Type) := ExceptT Fault (StateM σ) α

namespace Action

variable {σ τ α : Type}

/-- The outcome of an action and the state after it. -/
def exec (action : Action σ α) (s : σ) : Except Fault α × σ := action.run.run s

/-- An action given by its outcome and its state change. -/
def of (f : σ → Except Fault α × σ) : Action σ α := ExceptT.mk fun s => f s

/-- Looks at the state. -/
def read (f : σ → Except Fault α) : Action σ α := of fun s => (f s, s)

/-- Changes the state, or leaves it as it is and fails. -/
def write (f : σ → Except Fault σ) : Action σ Unit :=
  of fun s => match f s with
    | .ok s' => (.ok (), s')
    | .error e => (.error e, s)

/-- Changes the state with a result, or leaves it as it is and fails. -/
def change (f : σ → Except Fault (α × σ)) : Action σ α :=
  of fun s => match f s with
    | .ok (a, s') => (.ok a, s')
    | .error e => (.error e, s)

/-- Fails, and leaves the state as it is. -/
def fail (e : Fault) : Action σ α := of fun s => (.error e, s)

/-- An outcome that does not depend on the state. -/
def lift (result : Except Fault α) : Action σ α := of fun s => (result, s)

/-- Runs an action on a part of the state. -/
def within (get : τ → σ) (set : σ → τ → τ) (action : Action σ α) : Action τ α :=
  of fun t => ((action.exec (get t)).1, set (action.exec (get t)).2 t)

end Action

end SemanticStore
