import SemanticStore.Proofs.Backend.Memory
import SemanticStore.Proofs.Backend.Tables
import SemanticStore.Proofs.Store.Ensures
import SemanticStore.Proofs.Store.Simulation

/-!
# A request that fails changes nothing

Every check of a request comes before its first write, and from the first write on nothing can fail:
a collection that was found takes every description, every document and every removal
(`Backend.Refinement.Present`), and an address from which a collection was dropped takes a new one.

* `Backend.Refinement.unchanged`: this holds for a store on any backend that refines a catalog.
* `Store.failed_call_changes_nothing`: in every world reached on memory or on tables, a call that
  fails leaves the backend as it was, and the registry of locks has at most one more entry.
-/

namespace SemanticStore

open SemanticStore.Action

namespace Backend.Refinement

variable {σ : Type} [Backend σ] {f : Fidelity} {R : σ → Catalog f → Prop} {s : σ} {a : Address}
  {c : Collection}

/-- The state is that of a catalog which has a collection at the address. -/
def Present (R : σ → Catalog f → Prop) (a : Address) (s : σ) : Prop :=
  ∃ k, R s k ∧ ∃ h, Keyed.find? a k.holdings = some h

/-- The state is that of a catalog which has no collection at the address. -/
def Absent (R : σ → Catalog f → Prop) (a : Address) (s : σ) : Prop :=
  ∃ k, R s k ∧ Keyed.find? a k.holdings = none

/-! ### Writes that cannot fail -/

theorem present_of_shown (hR : Backend.Refinement R) {k : Catalog f} (hk : R s k)
    (hc : Store.Shown a c s) : Present R a s := by
  have hread := hR.collection? (a := a) hk trivial
  rw [show Backend.collection? a s = .ok (some c) from hc] at hread
  refine ⟨k, hk, ?_⟩
  cases hh : Keyed.find? a k.holdings with
  | some h => exact ⟨h, rfl⟩
  | none =>
    have hnone : Backend.collection? a k = .ok none := by
      show Catalog.collection? a k = _
      unfold Catalog.collection?
      rw [hh]
    rw [hnone] at hread
    obtain ⟨⟨⟩⟩ := hread

omit [Backend σ] in
lemma exists_of_agree {x : Except Fault σ} {k : Catalog f} {h : Holding}
    (hx : Agree R x (.ok (k.store a h))) : ∃ s', x = .ok s' ∧ Present R a s' := by
  obtain ⟨s', hs', hk⟩ := hx.symm.exists_ok
  exact ⟨s', hs', _, hk, h, Keyed.find?_put_self⟩

theorem redescribe_ok (hR : Backend.Refinement R) (hs : Present R a s) (c : Collection) :
    ∃ s', Backend.redescribe a c s = .ok s' ∧ Present R a s' := by
  obtain ⟨k, hk, h, hh⟩ := hs
  have hput := hR.redescribe (a := a) hk trivial (.refl (fun _ => rfl) c)
  rw [Catalog.redescribe_of_find? hh] at hput
  exact exists_of_agree hput

theorem put_ok (hR : Backend.Refinement R) (hs : Present R a s) (d : Document) :
    ∃ s', Backend.put a d s = .ok s' ∧ Present R a s' := by
  obtain ⟨k, hk, h, hh⟩ := hs
  have hput := hR.put (a := a) d hk trivial
  rw [Catalog.put_of_find? hh] at hput
  exact exists_of_agree hput

theorem remove_ok (hR : Backend.Refinement R) (hs : Present R a s) (id : String) :
    ∃ b s', Backend.remove a id s = .ok (b, s') ∧ Present R a s' := by
  obtain ⟨k, hk, h, hh⟩ := hs
  have hremove := hR.remove (a := a) id hk trivial
  rw [Catalog.remove_of_find? hh] at hremove
  obtain ⟨⟨b, s'⟩, hs', -, hk'⟩ := hremove.symm.exists_ok
  exact ⟨b, s', hs', _, hk', _, Keyed.find?_put_self⟩

theorem drop_absent (hR : Backend.Refinement R) {k : Catalog f} (hk : R s k) {b : Bool} {s' : σ}
    (hs' : Backend.drop a s = .ok (b, s')) : Absent R a s' := by
  have hdrop := hR.drop (a := a) hk trivial
  rw [hs'] at hdrop
  obtain ⟨⟨b', k'⟩, hk', -, hR'⟩ := hdrop.exists_ok
  obtain ⟨-, rfl⟩ : b' = _ ∧ _ = k' := by
    injection hk' with hk'
    injection hk' with h₁ h₂
    exact ⟨h₁.symm, h₂⟩
  exact ⟨_, hR', Keyed.find?_erase_self⟩

theorem create_ok (hR : Backend.Refinement R) (hs : Absent R a s) (c : Collection) :
    ∃ s', Backend.create a c s = .ok s' := by
  obtain ⟨k, hk, hn⟩ := hs
  have hcreate := hR.create (a := a) hk trivial (.refl (fun _ => rfl) c)
  rw [Catalog.create_of_find?_eq_none hn] at hcreate
  obtain ⟨s', hs', -⟩ := hcreate.symm.exists_ok
  exact ⟨s', hs'⟩

/-! ### The writing parts of requests -/

theorem putAll_spec (hR : Backend.Refinement R) (documents : List Document) :
    Spec (Present R a) (Holdings.putAll a documents) (fun _ => Present R a) fun _ _ => False := by
  induction documents with
  | nil => exact Spec.pure_keeps _
  | cons d rest ih =>
    have hput : Spec (Present R a) (.write (Backend.put a d)) (fun _ => Present R a)
        fun _ _ => False := Spec.write_of_ok fun s hs => hR.put_ok hs d
    exact hput.bind fun _ => ih

theorem delete_spec (hR : Backend.Refinement R) (ids : List String) :
    Spec (Present R a) (Holdings.delete a ids) (fun _ => Present R a) fun _ _ => False := by
  induction ids with
  | nil => exact Spec.pure_keeps _
  | cons id rest ih =>
    have hremove : Spec (Present R a) (.change (Backend.remove a id)) (fun _ => Present R a)
        fun _ _ => False := Spec.change_of_ok fun s hs => hR.remove_ok hs id
    exact hremove.bind fun _ => ih.bind fun _ => Spec.pure_keeps _

/-- A batch that is refused is refused by the check in front of the first write. -/
theorem write_spec (hR : Backend.Refinement R) {s₀ : σ} (hs₀ : Present R a s₀)
    (documents : List Document) :
    Spec (fun s => s = s₀) (Holdings.write a c documents) (fun _ _ => True) fun _ s => s = s₀ := by
  have hput : Spec (Present R a) (Holdings.putAll a documents) (fun _ _ => True) fun _ s => s = s₀ :=
    (hR.putAll_spec documents).conseq (fun _ => id) (fun _ _ _ => trivial) fun _ _ h => h.elim
  unfold Holdings.write Holdings.settle
  refine Spec.bind (Q := fun _ => Present R a) ?_ fun _ => hput
  -- the check may fail, but it does not write; what follows it writes, but does not fail
  refine (Spec.lift_keeps _).bind fun dimension => ?_
  have hkeep : Spec (fun s => s = s₀) (pure () : Action σ Unit) (fun _ => Present R a)
      fun _ s => s = s₀ := Spec.pure fun s hs => hs ▸ hs₀
  cases c.dimension with
  | some n => exact hkeep
  | none =>
    cases dimension with
    | none => exact hkeep
    | some n =>
      exact Spec.write_of_ok fun s hs =>
        hR.redescribe_ok (hs ▸ hs₀) { c with dimension := some n }

/-- **Whatever a request to a store does, if it fails then the backend is as it was.** -/
theorem unchanged (hR : Backend.Refinement R) {s₀ : σ} {k : Catalog f} (hk : R s₀ k)
    (store : Store) (now : Timestamp) :
    store.Ensures now (fun s => s = s₀) (fun _ => True) fun s => s = s₀ where
  done _ _ := trivial
  failed _ hs := hs
  add name := Spec.bind (Q := fun _ _ => True)
    (Spec.write (fun _ _ _ _ => trivial) fun _ _ hs _ => hs.1) fun _ => Spec.pure_keeps _
  replace name c := by
    -- once the old collection is gone, adding the new one must not fail
    have hadd : Spec (Absent R (store.address name)) (store.add now name) (fun _ _ => True)
        fun _ s => s = s₀ := by
      have hcreate : Spec (Absent R (store.address name))
          (.write (Backend.create (store.address name) (.fresh name store.metric now)))
          (fun _ _ => True) fun _ s => s = s₀ := by
        refine Spec.write_of_ok fun s hs => ?_
        obtain ⟨s', hs'⟩ := hR.create_ok hs (.fresh name store.metric now)
        exact ⟨s', hs', trivial⟩
      exact hcreate.bind fun _ => Spec.pure_keeps _
    refine Spec.bind (Q := fun _ => Absent R (store.address name)) (Spec.change ?_ ?_) fun _ => hadd
    · rintro s b s' ⟨rfl, -⟩ hs'
      exact hR.drop_absent hk hs'
    · exact fun s e hs _ => hs.1
  drop name := Spec.change (fun _ _ _ _ _ => trivial) fun _ _ hs _ => hs
  write name c documents := by
    rintro s ⟨rfl, hc⟩
    exact hR.write_spec (hR.present_of_shown hk hc) documents s rfl
  delete name c ids := by
    rintro s ⟨rfl, hc⟩
    exact (hR.delete_spec ids).conseq (fun _ => id) (fun _ _ _ => trivial) (fun _ _ h => h.elim) s
      (hR.present_of_shown hk hc)

end Backend.Refinement

namespace Store

/-- A call that fails on a backend which refines a catalog leaves the backend as it is. -/
theorem Call.unchanged_of_refinement {σ : Type} [Backend σ] {f : Fidelity}
    {R : σ → Catalog f → Prop} (hR : Backend.Refinement R) {w : World σ} {k : Catalog f}
    (hk : R w.backend k) {c : Call} {e : Fault} (he : (c.perform.exec w).1 = .error e) :
    (c.after w).backend = w.backend ∧ w.locks.Grows (c.after w).locks := by
  have hspec := (hR.unchanged hk c.store c.now).perform c.request (l := w.locks) w ⟨rfl, rfl⟩
  unfold Call.after
  unfold Call.perform at he ⊢
  rcases hx : (c.request.perform c.store c.now).exec w with ⟨e' | r, w'⟩ <;> rw [hx] at hspec he
  · exact hspec
  · cases he

/-- **In every world reached on memory or on tables, a call that fails leaves the backend as it
was**, and asks for one lock at most. -/
theorem failed_call_changes_nothing (c : Call) (e : Fault) :
    (∀ w : World Memory, Reachable Memory.empty w → (c.perform.exec w).1 = .error e →
      (c.after w).backend = w.backend ∧ w.locks.Grows (c.after w).locks) ∧
    ∀ w : World Tables, Reachable Tables.empty w → (c.perform.exec w).1 = .error e →
      (c.after w).backend = w.backend ∧ w.locks.Grows (c.after w).locks := by
  constructor
  · intro w hw he
    obtain ⟨v, -, hv, -⟩ := hw.related Memory.refinement Memory.shows_empty
    exact c.unchanged_of_refinement Memory.refinement hv he
  · intro w hw he
    obtain ⟨v, -, hv, -⟩ := hw.related Tables.refinement Tables.shows_empty
    exact c.unchanged_of_refinement Tables.refinement hv he

def emptyCollection : Call := ⟨offline .default, instant 0, .create "animals" false false⟩

/-- A batch whose second document has an embedding of another length than the first. -/
def unevenBatch : Call :=
  ⟨offline .default, instant 1, .insert "animals" false
    [⟨"1", "a fox", none, some [.one]⟩, ⟨"2", "a wolf", none, some [.one, .one]⟩]⟩

/-- The refused batch does not even fix the dimension of its collection. -/
theorem failed_call_changes_nothing_uneven :
    let m := emptyCollection.after (.opened Memory.empty)
    let t := emptyCollection.after (.opened Tables.empty)
    ((unevenBatch.perform.exec m).1 = .error (.dimensionMismatch 1 2) ∧
      (unevenBatch.after m).backend = m.backend) ∧
    (unevenBatch.perform.exec t).1 = .error (.dimensionMismatch 1 2) ∧
      (unevenBatch.after t).backend = t.backend := by
  intro m t
  have hm : (unevenBatch.perform.exec m).1 = .error (.dimensionMismatch 1 2) :=
    eq_error_of_fault? (by decide +kernel)
  have ht : (unevenBatch.perform.exec t).1 = .error (.dimensionMismatch 1 2) :=
    eq_error_of_fault? (by decide +kernel)
  obtain ⟨memory, tables⟩ := failed_call_changes_nothing unevenBatch (.dimensionMismatch 1 2)
  exact ⟨⟨hm, (memory m (.after .opened _) hm).1⟩, ht, (tables t (.after .opened _) ht).1⟩

end Store

end SemanticStore
