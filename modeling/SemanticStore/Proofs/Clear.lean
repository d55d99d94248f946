import SemanticStore.Proofs.Action

/-!
# Outcomes that do not come from a text that is not read

`Clear Q x`: the outcome `x` is a result with `Q`, or a fault, but not one of decoding.
`Action.Clearly I x Q`: from a state with `I`, the action `x` has such an outcome and ends in a state
with `I` again. Like `Action.Spec`, it is closed under the ways in which actions are put together.
-/

namespace SemanticStore

/-- Stored or given text did not decode. -/
def Fault.isSerialization : Fault → Bool
  | .serialization _ => true
  | _ => false

lemma Fault.exists_of_isSerialization {e : Fault} (h : e.isSerialization = true) :
    ∃ text, e = .serialization text := by
  cases e with
  | serialization text => exact ⟨text, rfl⟩
  | _ => cases h

/-- A result with `Q`, or a fault that is not one of decoding. -/
inductive Clear {α : Type} (Q : α → Prop) : Except Fault α → Prop
  | ok {a : α} (h : Q a) : Clear Q (.ok a)
  | error {e : Fault} (h : e.isSerialization = false) : Clear Q (.error e)

namespace Clear

variable {α β : Type} {Q : α → Prop} {Q' : β → Prop} {x : Except Fault α}

theorem mono {P : α → Prop} (h : Clear Q x) (hQ : ∀ a, Q a → P a) : Clear P x := by
  cases h with
  | ok h => exact .ok (hQ _ h)
  | error he => exact .error he

theorem map {f : α → β} (h : Clear Q x) (hf : ∀ a, Q a → Q' (f a)) : Clear Q' (x.map f) := by
  cases h with
  | ok h => exact .ok (hf _ h)
  | error he => exact .error he

theorem bind {f : α → Except Fault β} (h : Clear Q x) (hf : ∀ a, Q a → Clear Q' (f a)) :
    Clear Q' (x >>= f) := by
  cases h with
  | ok h => exact hf _ h
  | error he => exact .error he

theorem mapM {P : β → Prop} {f : α → Except Fault β} {l : List α} (h : ∀ a ∈ l, Clear P (f a)) :
    Clear (∀ b ∈ ·, P b) (l.mapM f) := by
  induction l with
  | nil => exact .ok fun b hb => absurd hb List.not_mem_nil
  | cons a l ih =>
    obtain ⟨ha, hl⟩ := List.forall_mem_cons.mp h
    rw [List.mapM_cons]
    refine ha.bind fun b hb => (ih hl).bind fun bs hbs => ?_
    exact .ok (List.forall_mem_cons.mpr ⟨hb, hbs⟩)

theorem ne_serialization (h : Clear Q x) (text : String) : x ≠ .error (.serialization text) := by
  rintro rfl
  cases h with | error he => cases he

end Clear

namespace Action

variable {σ α β : Type} {I : σ → Prop} {Q : α → Prop} {Q' : β → Prop} {x : Action σ α}

/-- From a state with `I`, the outcome is clear, and the state after it has `I`. -/
def Clearly (I : σ → Prop) (x : Action σ α) (Q : α → Prop) : Prop :=
  ∀ ⦃s⦄, I s → Clear Q (x.exec s).1 ∧ I (x.exec s).2

namespace Clearly

theorem pure {a : α} (h : Q a) : Clearly I (Pure.pure a) Q := fun _ hs => ⟨.ok h, hs⟩

theorem fail {e : Fault} (h : e.isSerialization = false) : Clearly I (Action.fail e) Q :=
  fun _ hs => ⟨.error h, hs⟩

theorem mono {P : α → Prop} (h : Clearly I x Q) (hQ : ∀ a, Q a → P a) : Clearly I x P :=
  fun _ hs => ⟨(h hs).1.mono hQ, (h hs).2⟩

theorem bind {f : α → Action σ β} (hx : Clearly I x Q) (hf : ∀ a, Q a → Clearly I (f a) Q') :
    Clearly I (x >>= f) Q' := by
  intro s hs
  obtain ⟨hout, hs'⟩ := hx hs
  rw [exec_bind]
  generalize x.exec s = r at hout hs' ⊢
  obtain ⟨r, s'⟩ := r
  cases hout with
  | ok h => exact hf _ h hs'
  | error he => exact ⟨.error he, hs'⟩

theorem read {f : σ → Except Fault α} (h : ∀ s, I s → Clear Q (f s)) : Clearly I (Action.read f) Q :=
  fun s hs => ⟨h s hs, hs⟩

theorem lift {r : Except Fault α} (h : Clear Q r) : Clearly I (Action.lift r) Q := read fun _ _ => h

theorem write {f : σ → Except Fault σ} (h : ∀ s, I s → Clear I (f s)) :
    Clearly I (Action.write f) fun _ => True := by
  intro s hs
  have hf := h s hs
  rw [exec_write]
  generalize f s = r at hf ⊢
  cases hf with
  | ok h => exact ⟨.ok trivial, h⟩
  | error he => exact ⟨.error he, hs⟩

theorem change {f : σ → Except Fault (α × σ)} (h : ∀ s, I s → Clear (fun r => Q r.1 ∧ I r.2) (f s)) :
    Clearly I (Action.change f) Q := by
  intro s hs
  have hf := h s hs
  rw [exec_change]
  generalize f s = r at hf ⊢
  cases hf with
  | ok h => exact ⟨.ok h.1, h.2⟩
  | error he => exact ⟨.error he, hs⟩

end Clearly

end Action

end SemanticStore
