import Mathlib.Tactic.Common
import SemanticStore.Proofs.Backend.Catalog
import SemanticStore.Proofs.Backend.Simulation

/-!
# The order in which a backend keeps things

`Backend.Orderly I`: in the states with `I`, a put replaces a document in its place or appends it, a
removal takes out the one document, a collection that is made anew is empty and listed last, and all
operations that read a collection agree on its documents.

* `Catalog.orderly`: the catalogs of values are orderly.
* `Backend.Orderly.of_refinement`: so is a backend that refines an orderly one.
-/

namespace SemanticStore

/-- How a backend keeps collections and documents in the states with `I`. -/
structure Backend.Orderly {σ : Type} [Backend σ] (I : σ → Prop) : Prop where
  /-- no id is there twice -/
  ids {s : σ} {a : Address} {ds : List Document} (hs : I s) (h : Backend.documents a s = .ok ds) :
    (ds.map (·.id)).Nodup
  /-- a document with a stored id takes the place of the stored one -/
  put_stored {s : σ} {a : Address} {ds : List Document} {d : Document} (hs : I s)
    (h : Backend.documents a s = .ok ds) (hd : d.id ∈ ds.map (·.id)) :
    ∃ s', Backend.put a d s = .ok s' ∧
      Backend.documents a s' = .ok (ds.map fun e => if e.id = d.id then d else e)
  /-- a document with a new id goes to the end -/
  put_new {s : σ} {a : Address} {ds : List Document} {d : Document} (hs : I s)
    (h : Backend.documents a s = .ok ds) (hd : d.id ∉ ds.map (·.id)) :
    ∃ s', Backend.put a d s = .ok s' ∧ Backend.documents a s' = .ok (ds ++ [d])
  /-- the document with the id is taken out, the others stay as they are -/
  remove {s : σ} {a : Address} {ds : List Document} (id : String) (hs : I s)
    (h : Backend.documents a s = .ok ds) :
    ∃ s', Backend.remove a id s = .ok (decide (id ∈ ds.map (·.id)), s') ∧
      Backend.documents a s' = .ok (ds.filter fun e => e.id ≠ id)
  /-- a document that was taken out and is put back goes to the end -/
  put_back {s : σ} {a : Address} {ds : List Document} {d : Document} (hs : I s)
    (h : Backend.documents a s = .ok ds) :
    ∃ b s' s'', Backend.remove a d.id s = .ok (b, s') ∧ Backend.put a d s' = .ok s'' ∧
      Backend.documents a s'' = .ok ((ds.filter fun e => e.id ≠ d.id) ++ [d])
  /-- a collection made where one was dropped is empty and comes last -/
  recreate {s : σ} (a : Address) (c : Collection) (hs : I s) :
    ∃ b s' s'' cs, Backend.drop a s = .ok (b, s') ∧ Backend.collections a.partition s' = .ok cs ∧
      Backend.create a c s' = .ok s'' ∧ Backend.documents a s'' = .ok [] ∧
      Backend.collections a.partition s'' = .ok (cs ++ [{ c with count := 0 }])
  /-- whoever reads a collection sees the same documents -/
  agree {s : σ} {a : Address} {ds : List Document} (hs : I s)
    (h : Backend.documents a s = .ok ds) :
    (∀ id, Backend.hasDocument a id s = .ok (decide (id ∈ ds.map (·.id))) ∧
      Backend.document? a id s = .ok (ds.find? fun d => d.id = id)) ∧
    Backend.count a s = .ok ds.length ∧
    ∃ c cs, Backend.collection? a s = .ok (some c) ∧ c.count = ds.length ∧
      Backend.collections a.partition s = .ok cs ∧ c ∈ cs

/-! ### Catalogs -/

namespace Catalog

variable {k : Catalog .exact} {a : Address} {h : Holding} {ds : List Document}

lemma documents_of_find? (hh : Keyed.find? a k.holdings = some h) :
    Backend.documents a k = .ok h.documents := by
  have hmap := mapM_eq_ok (f := Fidelity.exact.document) (g := id) (l := h.documents) fun d _ => rfl
  rw [List.map_id] at hmap
  show (holding a k >>= fun h => h.documents.mapM Fidelity.exact.document) = _
  rw [holding_of_find? hh]
  exact hmap

lemma exists_of_documents (hds : Backend.documents a k = .ok ds) :
    ∃ h, Keyed.find? a k.holdings = some h ∧ h.documents = ds := by
  cases hh : Keyed.find? a k.holdings with
  | some h =>
    rw [documents_of_find? hh] at hds
    exact ⟨h, rfl, Except.ok.inj hds⟩
  | none =>
    have hmissing : Backend.documents a k = .error (.collectionMissing a.display) := by
      show (holding a k >>= _) = _
      unfold holding
      rw [hh]
      rfl
    rw [hmissing] at hds
    cases hds

lemma documents_store (a : Address) (h : Holding) (k : Catalog .exact) :
    Backend.documents a (k.store a h) = .ok h.documents :=
  documents_of_find? Keyed.find?_put_self

/-- The collections of a partition, with their present numbers of documents. -/
lemma collections_eq (p : String) (k : Catalog .exact) : Backend.collections p k =
    .ok ((k.holdings.filter fun ah => ah.1.partition = p).map fun ah =>
      { ah.2.descriptor with count := ah.2.documents.length }) :=
  mapM_eq_ok fun _ _ => rfl

lemma isSome_find? (id : String) (ds : List Document) :
    (Documents.find? id ds).isSome = decide (id ∈ ds.map (·.id)) := by
  rw [Bool.eq_iff_iff, decide_eq_true_iff, Option.isSome_iff_ne_none, ne_eq,
    Documents.find?_eq_none_iff, not_not]

/-- **A sound catalog of values keeps documents and collections in order.** -/
theorem orderly : Backend.Orderly (Sound (f := .exact)) where
  ids hk hds := by
    obtain ⟨h, hh, rfl⟩ := exists_of_documents hds
    exact hk.ids_of_find? hh
  put_stored {k a _ d} hk hds hd := by
    obtain ⟨h, hh, rfl⟩ := exists_of_documents hds
    refine ⟨_, put_of_find? hh d, (documents_store ..).trans (congrArg _ ?_)⟩
    obtain ⟨e, he⟩ := Option.isSome_iff_exists.mp ((isSome_find? ..).trans (decide_eq_true hd))
    exact Documents.put_eq_map (hk.ids_of_find? hh) he
  put_new {k a _ d} hk hds hd := by
    obtain ⟨h, hh, rfl⟩ := exists_of_documents hds
    refine ⟨_, put_of_find? hh d, (documents_store ..).trans (congrArg _ ?_)⟩
    exact Documents.put_of_find?_eq_none (Documents.find?_eq_none_iff.mpr hd)
  remove id hk hds := by
    obtain ⟨h, hh, rfl⟩ := exists_of_documents hds
    exact ⟨_, isSome_find? id h.documents ▸ remove_of_find? hh id, documents_store ..⟩
  put_back {k a _ d} hk hds := by
    obtain ⟨h, hh, rfl⟩ := exists_of_documents hds
    refine ⟨_, _, _, remove_of_find? hh d.id, put_of_find? Keyed.find?_put_self d, ?_⟩
    refine (documents_store ..).trans (congrArg _ (Documents.put_of_find?_eq_none ?_))
    simp [Documents.find?, Documents.erase]
  recreate {k} a c hk := by
    let k' : Catalog .exact := ⟨Keyed.erase a k.holdings⟩
    have hn : Keyed.find? a k'.holdings = none := Keyed.find?_erase_self
    refine ⟨_, k', _, _, rfl, collections_eq .., create_of_find?_eq_none hn c,
      documents_of_find? (h := ⟨c, []⟩) ?_, ?_⟩
    · rw [Keyed.find?_append, hn]
      exact if_pos rfl
    · rw [collections_eq, List.filter_append, List.map_append]
      simp
  agree {k a _} hk hds := by
    obtain ⟨h, hh, rfl⟩ := exists_of_documents hds
    have hholding := holding_of_find? hh
    refine ⟨fun id => ⟨?_, ?_⟩, congrArg (Except.map _) hholding,
      { h.descriptor with count := h.documents.length }, _, ?_, rfl, collections_eq .., ?_⟩
    · rw [← isSome_find?]
      exact congrArg (Except.map _) hholding
    · show (holding a k >>= read? id) = _
      rw [hholding]
      show read? id h = .ok (Documents.find? id h.documents)
      unfold read?
      cases Documents.find? id h.documents <;> rfl
    · show Catalog.collection? a k = _
      unfold Catalog.collection?
      rw [hh]
      rfl
    · refine List.mem_map.mpr ⟨(a, h), List.mem_filter.mpr ⟨Keyed.mem_of_find? hh, ?_⟩, rfl⟩
      exact decide_eq_true rfl

end Catalog

/-! ### Backends that refine an orderly one -/

namespace Backend

variable {σ τ : Type} [Backend σ] [Backend τ] {R : σ → τ → Prop} {I : σ → Prop} {J : τ → Prop}

lemma Simulation.collections_eq (hR : Refinement R) {s : σ} {t : τ} (hst : R s t) (p : String) :
    Backend.collections p s = Backend.collections p t := by
  have hlist := (hR.collections (p := p) hst trivial).mono fun _ _ h =>
    List.forall₂_eq_eq_eq ▸ h.imp fun _ _ => Collection.Alike.eq
  exact Agree.eq_iff.mp hlist

/-- **A backend that refines an orderly one is orderly.** -/
theorem Orderly.of_refinement (hR : Refinement R) (hJ : Orderly J)
    (hI : ∀ s, I s → ∃ t, R s t ∧ J t) : Orderly I where
  ids {s a _} hs hds := by
    obtain ⟨t, hst, ht⟩ := hI s hs
    exact hJ.ids ht ((hR.documents hst trivial).symm.trans hds)
  put_stored {s a _ d} hs hds hd := by
    obtain ⟨t, hst, ht⟩ := hI s hs
    obtain ⟨t', hput, hdocs⟩ := hJ.put_stored ht ((hR.documents hst trivial).symm.trans hds) hd
    obtain ⟨s', hs', hst'⟩ := (hput ▸ hR.put d hst trivial).symm.exists_ok
    exact ⟨s', hs', (hR.documents hst' trivial).trans hdocs⟩
  put_new {s a _ d} hs hds hd := by
    obtain ⟨t, hst, ht⟩ := hI s hs
    obtain ⟨t', hput, hdocs⟩ := hJ.put_new ht ((hR.documents hst trivial).symm.trans hds) hd
    obtain ⟨s', hs', hst'⟩ := (hput ▸ hR.put d hst trivial).symm.exists_ok
    exact ⟨s', hs', (hR.documents hst' trivial).trans hdocs⟩
  remove {s a _} id hs hds := by
    obtain ⟨t, hst, ht⟩ := hI s hs
    obtain ⟨t', hremove, hdocs⟩ := hJ.remove id ht ((hR.documents hst trivial).symm.trans hds)
    obtain ⟨⟨b, s'⟩, hs', rfl, hst'⟩ := (hremove ▸ hR.remove id hst trivial).symm.exists_ok
    exact ⟨s', hs', (hR.documents hst' trivial).trans hdocs⟩
  put_back {s a _ d} hs hds := by
    obtain ⟨t, hst, ht⟩ := hI s hs
    obtain ⟨b, t', t'', hremove, hput, hdocs⟩ :=
      hJ.put_back ht ((hR.documents hst trivial).symm.trans hds)
    obtain ⟨⟨b', s'⟩, hs', -, hst'⟩ := (hremove ▸ hR.remove d.id hst trivial).symm.exists_ok
    obtain ⟨s'', hs'', hst''⟩ := (hput ▸ hR.put d hst' trivial).symm.exists_ok
    exact ⟨b', s', s'', hs', hs'', (hR.documents hst'' trivial).trans hdocs⟩
  recreate {s} a c hs := by
    obtain ⟨t, hst, ht⟩ := hI s hs
    obtain ⟨b, t', t'', cs, hdrop, hlist, hcreate, hdocs, hlist'⟩ := hJ.recreate a c ht
    obtain ⟨⟨b', s'⟩, hs', -, hst'⟩ := (hdrop ▸ hR.drop hst trivial).symm.exists_ok
    obtain ⟨s'', hs'', hst''⟩ :=
      (hcreate ▸ hR.create hst' trivial (.refl (fun _ => rfl) c)).symm.exists_ok
    exact ⟨b', s', s'', cs, hs', (hR.collections_eq hst' _).trans hlist, hs'',
      (hR.documents hst'' trivial).trans hdocs, (hR.collections_eq hst'' _).trans hlist'⟩
  agree {s a _} hs hds := by
    obtain ⟨t, hst, ht⟩ := hI s hs
    obtain ⟨hone, hcount, c, cs, hc, hlength, hcs, hmem⟩ :=
      hJ.agree ht ((hR.documents hst trivial).symm.trans hds)
    refine ⟨fun id => ⟨?_, ?_⟩, (hR.count hst trivial).trans hcount, c, cs, ?_, hlength,
      (hR.collections_eq hst _).trans hcs, hmem⟩
    · exact (hR.hasDocument id hst trivial).trans (hone id).1
    · exact (hR.document? id hst trivial).trans (hone id).2
    · obtain ⟨x, hx, hrel⟩ := (hc ▸ hR.collection? hst trivial).symm.exists_ok
      rw [hx]
      cases hrel with
      | some hcd => rw [hcd.eq]

end Backend

end SemanticStore
