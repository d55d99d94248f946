import SemanticStore.Proofs.Store.Effects

/-!
# Histories

`Store.afterAll` is the world that a run of calls leads to from any world. Runs on a backend and on a
catalog that it refines go alike: calls have the same replies (`Store.perform_eq`), lead to related
worlds (`Store.afterAll_related`), and show the same collections (`Store.shown_iff`).

So what becomes of a collection is shown on catalogs, call by call. `Store.Call.removes` tells the
calls that end its history.
-/

namespace SemanticStore.Store

open SemanticStore.Action

variable {σ τ : Type} [Backend σ] [Backend τ]

/-- The world after calls made one after the other. -/
def afterAll (calls : List Call) (w : World σ) : World σ := calls.foldl (fun w c => c.after w) w

@[simp] lemma afterAll_nil (w : World σ) : afterAll [] w = w := rfl

@[simp] lemma afterAll_cons (c : Call) (calls : List Call) (w : World σ) :
    afterAll (c :: calls) w = afterAll calls (c.after w) := rfl

lemma afterAll_append (calls more : List Call) (w : World σ) :
    afterAll (calls ++ more) w = afterAll more (afterAll calls w) := List.foldl_append

/-- The call has taken away the collection at an address: it dropped it, or created an empty one
there with `overwrite`. -/
def Call.removes (a : Address) (c : Call) (reply : Except Fault Reply) : Bool :=
  (fault? reply).isNone && c.target? = some a &&
    match c.request with
    | .drop _ => true
    | .create _ overwrite _ => overwrite
    | _ => false

/-! ### Runs on backends that answer alike -/

section Transfer

variable {R : σ → τ → Prop} {v : World σ} {w : World τ}

theorem perform_eq (hR : Backend.Refinement R) (hvw : World.Related R v w) (c : Call) :
    (c.perform.exec v).1 = (c.perform.exec w).1 :=
  Agree.eq_iff.mp ((perform_sim hR trivial rfl c.request hvw).1.mono fun _ _ => Reply.Alike.eq)

theorem after_related (hR : Backend.Refinement R) (hvw : World.Related R v w) (c : Call) :
    World.Related R (c.after v) (c.after w) :=
  (perform_sim hR trivial rfl c.request hvw).2

theorem afterAll_related (hR : Backend.Refinement R) (hvw : World.Related R v w)
    (calls : List Call) : World.Related R (afterAll calls v) (afterAll calls w) := by
  induction calls generalizing v w with
  | nil => exact hvw
  | cons c rest ih => exact ih (after_related hR hvw c)

theorem shown_iff (hR : Backend.Refinement R) {s : σ} {t : τ} (hst : R s t) {a : Address}
    {c : Collection} : Shown a c s ↔ Shown a c t := by
  unfold Shown
  rw [hR.collection?_eq hst]

end Transfer

end SemanticStore.Store
