import SemanticStore.Proofs.Backend.Catalog
import SemanticStore.Proofs.Backend.Simulation
import SemanticStore.Proofs.Timestamp

/-!
# Catalogs that differ in times

Two catalogs that hold the same collections and documents, but collections that were created at
other times, answer alike but for these times (`Catalog.retimed_simulation`). A catalog of texts does
so if each pair of times is equal or lies in the years that are read back
(`Timestamp.Interchangeable`).
-/

namespace SemanticStore

/-- The instants are equal, or both are read back from their texts. -/
def Timestamp.Interchangeable (t u : Timestamp) : Prop := t = u ∨ t.InEra ∧ u.InEra

/-- What is read of descriptors that differ in times differs in times. -/
def Fidelity.Respects (f : Fidelity) (T : Timestamp → Timestamp → Prop) : Prop :=
  ∀ a c d, c.Alike T d → Agree (Collection.Alike T) (f.collection a c) (f.collection a d)

theorem Fidelity.exact_respects (T : Timestamp → Timestamp → Prop) : exact.Respects T :=
  fun _ _ _ hcd => .ok hcd

theorem Fidelity.textual_respects : textual.Respects Timestamp.Interchangeable := by
  rintro a c d hcd
  rcases hcd.createdAt with htime | ⟨hc, hd⟩
  · simp only [collection, htime]
    cases hread : Timestamp.parse? d.createdAt.renderNumeric with
    | none => exact .error _
    | some t => exact .ok ⟨rfl, hcd.dimension, hcd.metric, .inl rfl, hcd.count⟩
  · simp only [collection, Timestamp.parse?_renderNumeric _ hc, Timestamp.parse?_renderNumeric _ hd]
    exact .ok ⟨rfl, hcd.dimension, hcd.metric, .inr ⟨hc, hd⟩, hcd.count⟩

variable {T : Timestamp → Timestamp → Prop}

/-- The collections hold the same documents under descriptors that differ in times. -/
structure Holding.Retimed (T : Timestamp → Timestamp → Prop) (h h' : Holding) : Prop where
  descriptor : h.descriptor.Alike T h'.descriptor
  documents : h.documents = h'.documents

namespace Catalog

variable {f : Fidelity} {k k' : Catalog f} {a : Address} {h h' : Holding}

/-- The catalogs hold the same collections, but for times. -/
def Retimed (T : Timestamp → Timestamp → Prop) (k k' : Catalog f) : Prop :=
  Keyed.Match (Holding.Retimed T) k.holdings k'.holdings

theorem Retimed.empty : Retimed T (empty f) (empty f) := .nil

theorem Retimed.agree_holding (hk : Retimed T k k') (a : Address) :
    Agree (Holding.Retimed T) (holding a k) (holding a k') := by
  have hfind := Keyed.find?_match (k := a) hk
  unfold holding
  generalize Keyed.find? a k.holdings = o at hfind ⊢
  generalize Keyed.find? a k'.holdings = o' at hfind ⊢
  cases hfind with
  | none => exact .error _
  | some hh => exact .ok hh

theorem Retimed.store (hk : Retimed T k k') (hh : h.Retimed T h') :
    Retimed T (k.store a h) (k'.store a h') := Keyed.put_match hk hh

theorem Retimed.agree_snapshot (hT : f.Respects T) (a : Address) (hh : h.Retimed T h') :
    Agree (Collection.Alike T) (snapshot f a h) (snapshot f a h') := by
  unfold snapshot
  rw [← hh.documents]
  refine (hT a _ _ hh.descriptor).map fun c d hcd => ?_
  exact ⟨hcd.name, hcd.dimension, hcd.metric, hcd.createdAt, rfl⟩

/-- **Catalogs that differ in times answer alike, but for times.** -/
theorem retimed_simulation (hT : f.Respects T) :
    Backend.Simulation (fun _ => True) T (Retimed (f := f) T) where
  hasCollection := by
    rintro k k' a hk -
    exact congrArg Except.ok (Keyed.contains_match hk)
  collection? := by
    rintro k k' a hk -
    show Agree _ (Catalog.collection? a k) (Catalog.collection? a k')
    have hfind := Keyed.find?_match (k := a) hk
    unfold Catalog.collection?
    generalize Keyed.find? a k.holdings = o at hfind ⊢
    generalize Keyed.find? a k'.holdings = o' at hfind ⊢
    cases hfind with
    | none => exact .ok .none
    | some hh => exact (Retimed.agree_snapshot hT a hh).map fun _ _ => .some
  create := by
    rintro k k' a c d hk - hcd
    show Agree _ (Catalog.create a c k) (Catalog.create a d k')
    unfold Catalog.create
    rw [Keyed.contains_match hk]
    split
    · exact .error _
    · exact .ok (List.rel_append hk (.cons ⟨rfl, hcd, rfl⟩ .nil))
  redescribe := by
    rintro k k' a c d hk - hcd
    exact (hk.agree_holding a).map fun h h' hh => hk.store ⟨hcd, hh.documents⟩
  drop := by
    rintro k k' a hk -
    exact .ok ⟨Keyed.contains_match hk, Keyed.erase_match hk⟩
  collections := by
    rintro k k' p hk -
    refine Agree.mapM (fun x y hxy => ?_)
      (List.rel_filter (p := fun ah => decide (ah.1.partition = p)) (fun x y hxy => ?_) hk)
    · rw [hxy.1]
      exact Retimed.agree_snapshot hT y.1 hxy.2
    · simp only [hxy.1]
  hasDocument := by
    rintro k k' a id hk -
    refine Agree.eq_iff.mp ((hk.agree_holding a).map fun h h' hh => ?_)
    rw [hh.documents]
  document? := by
    rintro k k' a id hk -
    refine Agree.eq_iff.mp ((hk.agree_holding a).bind fun h h' hh => Agree.eq_iff.mpr ?_)
    unfold read?
    rw [hh.documents]
  put := by
    rintro k k' a d hk -
    refine (hk.agree_holding a).map fun h h' hh => hk.store ⟨hh.descriptor, ?_⟩
    exact congrArg (Documents.put d) hh.documents
  remove := by
    rintro k k' a id hk -
    refine (hk.agree_holding a).map fun h h' hh => ⟨?_, hk.store ⟨hh.descriptor, ?_⟩⟩
    · exact congrArg (fun l => (Documents.find? id l).isSome) hh.documents
    · exact congrArg (Documents.erase id) hh.documents
  documents := by
    rintro k k' a hk -
    refine Agree.eq_iff.mp ((hk.agree_holding a).bind fun h h' hh => Agree.eq_iff.mpr ?_)
    exact congrArg (List.mapM f.document) hh.documents
  count := by
    rintro k k' a hk -
    exact Agree.eq_iff.mp ((hk.agree_holding a).map fun h h' hh => congrArg List.length hh.documents)

end Catalog

end SemanticStore
