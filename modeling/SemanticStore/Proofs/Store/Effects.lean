import SemanticStore.Proofs.Store.Atomicity
import SemanticStore.Proofs.Store.Indexed
import SemanticStore.Proofs.Store.Retrieval
import SemanticStore.Proofs.Timestamp

/-!
# What requests do when they succeed

`Catalog` is the backend in which the outcome of a request can be written down. A request that
succeeds leads to one of these catalogs:

* a collection is created empty, at the end, and the one that was at its address is gone;
* a collection is dropped;
* a batch is inserted (`Store.insert_effect`) or updated (`Store.update_effect`): the collection takes
  the documents one after the other, and the first ones fix its dimension (`Holdings.settled`);
* documents are taken out by id (`Store.delete_effect`).

All others, and requests that fail, leave the catalog as it is. So a call does nothing to a collection
at an address it does not write to (`Store.Call.frame`).
-/

namespace SemanticStore

open SemanticStore.Action

/-! ### Collections that are looked up -/

theorem Fidelity.collection_eq_ok {f : Fidelity} {a : Address} {c c' : Collection}
    (h : f.collection a c = .ok c') : c'.dimension = c.dimension ∧ c'.metric = c.metric ∧
      c'.createdAt = c.createdAt := by
  cases f with
  | exact =>
    cases h
    exact ⟨rfl, rfl, rfl⟩
  | textual =>
    simp only [collection] at h
    split at h
    · cases h
    · rename_i t ht
      cases h
      exact ⟨rfl, rfl, ((Timestamp.parse?_renderNumeric_iff _ _).mp ht).2⟩

/-- A collection that is looked up is what is read of that at the address, with the present number of
documents. -/
theorem Catalog.shown_iff_read {f : Fidelity} {k : Catalog f} {a : Address} {c : Collection} :
    Store.Shown a c k ↔ ∃ h c', Keyed.find? a k.holdings = some h ∧
      f.collection a h.descriptor = .ok c' ∧ c = { c' with count := h.documents.length } := by
  have hlookup : Store.Shown a c k ↔ Catalog.collection? a k = .ok (some c) := Iff.rfl
  rw [hlookup]
  unfold Catalog.collection? snapshot
  cases hh : Keyed.find? a k.holdings with
  | none => simp
  | some h =>
    cases hread : f.collection a h.descriptor with
    | error e => simp [hread, Except.map]
    | ok c' => simp [hread, Except.map, eq_comm]

theorem Catalog.exists_of_shown {f : Fidelity} {k : Catalog f} {a : Address} {c : Collection}
    (hc : Store.Shown a c k) : ∃ h, Keyed.find? a k.holdings = some h ∧
      c.dimension = h.descriptor.dimension ∧ c.metric = h.descriptor.metric ∧
      c.createdAt = h.descriptor.createdAt := by
  obtain ⟨h, c', hh, hread, rfl⟩ := shown_iff_read.mp hc
  obtain ⟨hdim, hmetric, hcreated⟩ := Fidelity.collection_eq_ok hread
  exact ⟨h, hh, hdim, hmetric, hcreated⟩

lemma Catalog.find?_of_collection? {f : Fidelity} {k : Catalog f} {a : Address}
    (hc : Backend.collection? a k = .ok none) : Keyed.find? a k.holdings = none := by
  have hc : Catalog.collection? a k = .ok none := hc
  unfold Catalog.collection? at hc
  cases hh : Keyed.find? a k.holdings with
  | none => rfl
  | some h =>
    rw [hh] at hc
    obtain ⟨_, -, hcc⟩ := exists_of_map_eq_ok hc
    cases hcc

lemma Catalog.exists_of_document? {f : Fidelity} {k : Catalog f} {a : Address} {id : String}
    {d : Document} (hd : Backend.document? a id k = .ok (some d)) :
    ∃ h e, Keyed.find? a k.holdings = some h ∧ Documents.find? id h.documents = some e ∧
      f.document e = .ok d := by
  cases hh : Keyed.find? a k.holdings with
  | none =>
    have hnone : Backend.document? a id k = .error (.collectionMissing a.display) := by
      show (holding a k >>= read? (f := f) id) = _
      simp [holding, hh, bind, Except.bind]
    rw [hnone] at hd
    cases hd
  | some h =>
    rw [document?_of_find? hh] at hd
    unfold read? at hd
    cases he : Documents.find? id h.documents with
    | none =>
      rw [he] at hd
      cases hd
    | some e =>
      rw [he] at hd
      obtain ⟨d', hread, hdd⟩ := exists_of_map_eq_ok hd
      cases hdd
      exact ⟨h, e, rfl, he, hread⟩

lemma Catalog.Indexed.exists_dimension {f : Fidelity} {k : Catalog f} {a : Address} {h : Holding}
    {id : String} {d : Document} (hk : k.Indexed) (hh : Keyed.find? a k.holdings = some h)
    (hd : Backend.document? a id k = .ok (some d)) : ∃ n, h.descriptor.dimension = some n := by
  cases hn : h.descriptor.dimension with
  | some n => exact ⟨n, rfl⟩
  | none =>
    obtain ⟨h', e, hh', he, -⟩ := exists_of_document? hd
    obtain rfl := Option.some.inj (hh.symm.trans hh')
    rw [(hk a h (Keyed.mem_of_find? hh)).documents_eq_nil hn] at he
    cases he

/-- A stored document has its place among the documents that are read. -/
lemma Catalog.exists_read {f : Fidelity} {k : Catalog f} {a : Address} {h : Holding}
    {documents : List Document} {id : String} {d : Document}
    (hdocs : Backend.documents a k = .ok documents) (hh : Keyed.find? a k.holdings = some h)
    (hd : Documents.find? id h.documents = some d) :
    ∃ earlier e later, documents = earlier ++ e :: later ∧ e.id = id ∧
      e.embedding = d.embedding := by
  obtain ⟨h', hh', hread⟩ := documents_eq_ok hdocs
  obtain rfl := Option.some.inj (hh.symm.trans hh')
  obtain ⟨init, tail, hsplit⟩ := List.append_of_mem (Documents.mem_of_find? hd)
  rw [hsplit] at hread
  obtain ⟨earlier, e, later, rfl, he, -⟩ := exists_of_forall₂_append hread
  obtain ⟨hid, hembedding⟩ := Fidelity.document_eq_ok he
  have hdid : d.id = id := by simpa using List.find?_some hd
  exact ⟨earlier, e, later, rfl, hid.trans hdid, hembedding⟩

/-- The collection with this dimension and these documents. Its descriptor may have been written
again, under the name and with the count that were read. -/
structure Holding.Rewritten (h h' : Holding) (dimension : Option ℕ) (documents : List Document) :
    Prop where
  documents : h'.documents = documents
  dimension : h'.descriptor.dimension = dimension
  metric : h'.descriptor.metric = h.descriptor.metric
  createdAt : h'.descriptor.createdAt = h.descriptor.createdAt

variable {σ : Type} [Backend σ]

namespace Holdings

variable {a : Address} {c : Collection} {s : σ} {documents merged : List Document}

/-- The dimension that a batch leaves its collection with. -/
def settled (dimension : Option ℕ) (documents : List Document) : Option ℕ :=
  dimension.or (documents.head?.bind fun d => d.embedding.map List.length)

theorem commonDimension_eq_settled {dimension found : Option ℕ}
    (h : commonDimension dimension documents = .ok found) : found = settled dimension documents := by
  unfold settled
  cases dimension with
  | some n => exact (commonDimension_fits h).2 n rfl
  | none =>
    cases documents with
    | nil =>
      cases h
      rfl
    | cons d rest =>
      -- the first document fixes the dimension of the others
      obtain ⟨e, he, -, hfound⟩ := (commonDimension_fits h).1 d (List.mem_cons_self ..)
      simp [he, hfound]

/-- What is written for a document of an update: itself, with the metadata of the stored document
where it brings none. -/
def Merged (a : Address) (s : σ) (d merged : Document) : Prop :=
  ∃ old, Backend.document? a d.id s = .ok (some old) ∧
    merged = { d with metadata := d.metadata.orElse fun _ => old.metadata }

lemma Merged.id_eq {d m : Document} (h : Merged a s d m) : m.id = d.id := by
  obtain ⟨_, -, rfl⟩ := h
  rfl

lemma Merged.embedding_eq {d m : Document} (h : Merged a s d m) : m.embedding = d.embedding := by
  obtain ⟨_, -, rfl⟩ := h
  rfl

lemma ids_of_merged (h : List.Forall₂ (Merged a s) documents merged) :
    merged.map (·.id) = documents.map (·.id) :=
  Documents.ids_of_forall₂ h fun _ _ hm => Merged.id_eq hm

lemma exec_merge (a : Address) (documents : List Document) (s : σ) :
    ((merge a documents).exec s).2 = s := Spec.exec_snd_eq (merge_spec documents)

theorem merge_eq_ok_iff : ((merge a documents).exec s).1 = .ok ([], merged) ↔
    List.Forall₂ (Merged a s) documents merged := by
  induction documents generalizing merged with
  | nil =>
    have hnil : ((merge a []).exec s).1 = .ok ([], []) := rfl
    rw [hnil]
    simp
  | cons d rest ih =>
    unfold merge
    rw [exec_bind, exec_read]
    cases hread : Backend.document? a d.id s with
    | error e => simp [Merged, hread, List.forall₂_cons_left_iff]
    | ok stored =>
      dsimp only
      rw [exec_bind]
      rcases hrest : (merge a rest).exec s with ⟨e | ⟨missing, more⟩, s'⟩
      · rw [hrest] at ih
        have hnone : ∀ m, ¬ List.Forall₂ (Merged a s) rest m := fun m hm => by
          have := ih.mpr hm
          cases this
        simp [List.forall₂_cons_left_iff, hnone]
      · rw [hrest] at ih
        have hmore : ∀ m, List.Forall₂ (Merged a s) rest m ↔ missing = [] ∧ more = m := by
          intro m
          rw [← ih]
          simp
        cases stored with
        | none =>
          simp only [List.forall₂_cons_left_iff, Merged, hread]
          constructor
          · intro h
            cases h
          · rintro ⟨_, _, ⟨_, h, _⟩, _⟩
            cases h
        | some old =>
          simp only [List.forall₂_cons_left_iff, Merged, hread, hmore]
          constructor
          · intro h
            cases h
            exact ⟨_, _, ⟨old, rfl, rfl⟩, ⟨rfl, rfl⟩, rfl⟩
          · rintro ⟨_, _, ⟨_, h, rfl⟩, ⟨rfl, rfl⟩, rfl⟩
            cases h
            rfl

lemma exec_write_nil (a : Address) (c : Collection) (s : σ) :
    (write a c []).exec s = (.ok (), s) := by
  unfold write settle
  cases c.dimension with
  | none => rfl
  | some n => rfl

theorem insert_eq_ok {replacing : Bool} (h : ((insert a c replacing documents).exec s).1 = .ok ()) :
    (insert a c replacing documents).exec s = (write a c documents).exec s := by
  cases documents with
  | nil => rw [exec_write_nil]; rfl
  | cons d rest =>
    cases replacing with
    | true => rfl
    | false =>
      have hsplit : insert a c false (d :: rest) =
          (do refuseDuplicates a c [] (d :: rest); write a c (d :: rest) : Action σ Unit) := rfl
      rw [hsplit] at h ⊢
      obtain ⟨⟨⟩, hnew, -⟩ := exec_bind_eq_ok.mp h
      have hkeep : ((refuseDuplicates a c [] (d :: rest)).exec s).2 = s :=
        Spec.exec_snd_eq (refuseDuplicates_spec (d :: rest) [])
      rw [exec_bind]
      rcases hx : (refuseDuplicates a c [] (d :: rest)).exec s with ⟨r, s'⟩
      rw [hx] at hnew hkeep
      cases hnew
      cases hkeep
      rfl

/-- An update whose documents are all stored writes them with the metadata they keep. -/
theorem exec_update (h : List.Forall₂ (Merged a s) documents merged) :
    (update a c documents).exec s = (write a c merged).exec s := by
  cases documents with
  | nil =>
    cases h
    rw [exec_write_nil]
    rfl
  | cons d rest =>
    have hsplit : update a c (d :: rest) = (do
        let r ← merge a (d :: rest)
        if !r.1.isEmpty then .fail (.documentsMissing r.1 c.name)
        write a c r.2 : Action σ Unit) := rfl
    have hmerge := merge_eq_ok_iff.mpr h
    have hkeep := exec_merge a (d :: rest) s
    rw [hsplit, exec_bind]
    rcases hx : (merge a (d :: rest)).exec s with ⟨r, s'⟩
    rw [hx] at hmerge hkeep
    cases hmerge
    cases hkeep
    rfl

/-- An update that succeeds has found all its documents stored. -/
theorem update_eq_ok (h : ((update a c documents).exec s).1 = .ok ()) :
    ∃ merged, List.Forall₂ (Merged a s) documents merged := by
  cases documents with
  | nil => exact ⟨[], .nil⟩
  | cons d rest =>
    obtain ⟨⟨missing, merged⟩, hmerge, h⟩ := exec_bind_eq_ok.mp h
    cases missing with
    | nil => exact ⟨merged, merge_eq_ok_iff.mp hmerge⟩
    | cons id ids => cases h

/-! ### Writing to a catalog -/

section Catalog

variable {f : Fidelity} {k : Catalog f} {h : Holding}

omit [Backend σ]

theorem exec_putAll (documents : List Document) :
    ∀ {k : Catalog f} {h : Holding}, Keyed.find? a k.holdings = some h →
      (putAll a documents).exec k =
        (.ok (), k.store a { h with documents := Documents.putAll documents h.documents }) := by
  induction documents with
  | nil =>
    intro k h hh
    exact congrArg (Prod.mk _) (Catalog.store_of_find? hh).symm
  | cons d rest ih =>
    intro k h hh
    unfold putAll
    rw [exec_bind, exec_write, Catalog.put_of_find? hh]
    dsimp only
    rw [ih (Catalog.find?_store_self ..), Catalog.store_store]
    rfl

theorem exec_delete (ids : List String) :
    ∀ {k : Catalog f} {h : Holding}, Keyed.find? a k.holdings = some h →
      ∃ n, (delete a ids).exec k =
          (.ok n, k.store a { h with documents := Documents.eraseAll ids h.documents }) ∧
        ((h.documents.map (·.id)).Nodup →
          (Documents.eraseAll ids h.documents).length + n = h.documents.length) := by
  induction ids with
  | nil =>
    intro k h hh
    exact ⟨0, congrArg (Prod.mk _) (Catalog.store_of_find? hh).symm, fun _ => rfl⟩
  | cons id rest ih =>
    intro k h hh
    obtain ⟨n, hn, hcount⟩ := ih (Catalog.find?_store_self a
      { h with documents := Documents.erase id h.documents } k)
    have hexec : (delete a (id :: rest)).exec k =
        (.ok (if (Documents.find? id h.documents).isSome then n + 1 else n), k.store a
          { h with documents := Documents.eraseAll (id :: rest) h.documents }) := by
      unfold delete
      rw [exec_bind, exec_change, Catalog.remove_of_find? hh]
      dsimp only
      rw [exec_bind, hn, Catalog.store_store]
      rfl
    refine ⟨_, hexec, fun hids => ?_⟩
    have hrest : (Documents.eraseAll (id :: rest) h.documents).length + n =
        (Documents.erase id h.documents).length := hcount (Documents.nodup_erase hids)
    have hone := Documents.length_erase id hids
    by_cases hfound : (Documents.find? id h.documents).isSome
    · rw [if_pos hfound] at hone ⊢
      omega
    · rw [if_neg hfound] at hone ⊢
      omega

/-- A batch that is written to a collection which has been looked up. -/
theorem write_eq_ok (hc : Store.Shown a c k) (hh : Keyed.find? a k.holdings = some h)
    (hok : ((write a c documents).exec k).1 = .ok ()) :
    ∃ h', ((write a c documents).exec k).2 = k.store a h' ∧
      h.Rewritten h' (settled h.descriptor.dimension documents)
        (Documents.putAll documents h.documents) := by
  obtain ⟨h₀, hh₀, hdim, hmetric, hcreated⟩ := Catalog.exists_of_shown hc
  obtain rfl := Option.some.inj (hh.symm.trans hh₀)
  unfold write at hok ⊢
  obtain ⟨⟨⟩, hsettle, -⟩ := exec_bind_eq_ok.mp hok
  obtain ⟨found, hfound, -⟩ := exec_bind_eq_ok.mp hsettle
  have hfound : commonDimension c.dimension documents = .ok found := hfound
  have hsettled := commonDimension_eq_settled hfound
  rw [hdim] at hsettled
  -- either nothing is written, or the descriptor with its first dimension
  have hwritten : ∃ h', (settle a c documents).exec k = (.ok (), k.store a h') ∧
      h.Rewritten h' found h.documents := by
    unfold settle
    rw [hfound, hdim]
    cases hd : h.descriptor.dimension with
    | some n =>
      rw [hd] at hsettled
      refine ⟨h, ?_, rfl, hd.trans hsettled.symm, rfl, rfl⟩
      rw [Catalog.store_of_find? hh]
      rfl
    | none =>
      cases found with
      | none =>
        refine ⟨h, ?_, rfl, hd, rfl, rfl⟩
        rw [Catalog.store_of_find? hh]
        rfl
      | some n =>
        refine ⟨{ h with descriptor := { c with dimension := some n } }, ?_, rfl, rfl, hmetric,
          hcreated⟩
        show (Action.write (Backend.redescribe a { c with dimension := some n })).exec k = _
        rw [exec_write, Catalog.redescribe_of_find? hh]
  obtain ⟨h', hexec, hrewritten⟩ := hwritten
  rw [exec_bind, hexec]
  dsimp only
  rw [exec_putAll documents (Catalog.find?_store_self ..), Catalog.store_store]
  refine ⟨_, rfl, ?_, ?_, hrewritten.metric, hrewritten.createdAt⟩
  · rw [hrewritten.documents]
  · exact hrewritten.dimension.trans hsettled

end Catalog

end Holdings

namespace Store

variable {store : Store} {name : String} {c : Collection} {documents prepared : List Document}
  {calls : Calls} {w : World σ}

/-! ### Looking a collection up before working on it -/

omit [Backend σ] in
lemma exec_lock (a : Address) (w : World σ) :
    (World.lock a).exec w = (.ok (), { w with locks := (w.locks.handle a).2 }) := rfl

lemma exec_find_of_shown {s : σ} (hc : Shown (store.address name) c s) :
    (store.find name).exec s = (.ok c, s) := by
  have hread : Backend.collection? (store.address name) s = .ok (some c) := hc
  unfold find
  rw [exec_bind, exec_read, hread]
  rfl

lemma exec_onBackend_find (w : World σ) (hc : Shown (store.address name) c w.backend) :
    (World.onBackend (store.find name)).exec w = (.ok c, w) := by
  unfold World.onBackend
  rw [exec_within, exec_find_of_shown hc]

/-- A batch that is embedded is handed over with the descriptor of its collection. -/
theorem exec_index {write : Address → Collection → List Document → Action σ Unit}
    (hc : Shown (store.address name) c w.backend)
    (hp : (Indexing.embedMissing store.embedder store.batchSize documents).exec w.calls =
      (.ok prepared, calls)) :
    (store.index name documents write).exec w =
      (((write (store.address name) c prepared).exec w.backend).1,
        ⟨((write (store.address name) c prepared).exec w.backend).2,
          (w.locks.handle (store.address name)).2, calls⟩) := by
  have hembed : (World.onCalls (Indexing.embedMissing store.embedder store.batchSize
      documents)).exec w = (.ok prepared, { w with calls := calls }) := by
    unfold World.onCalls
    rw [exec_within, hp]
  unfold index
  rw [exec_bind, exec_onBackend_find w hc]
  dsimp only
  rw [exec_bind, hembed]
  dsimp only
  rw [exec_bind, exec_lock]
  dsimp only
  rw [exec_bind, exec_onBackend_find ⟨w.backend, (w.locks.handle (store.address name)).2, calls⟩ hc]
  rfl

theorem index_eq_ok {write : Address → Collection → List Document → Action σ Unit}
    (h : ((store.index name documents write).exec w).1 = .ok ()) :
    ∃ c prepared calls, Shown (store.address name) c w.backend ∧
      (Indexing.embedMissing store.embedder store.batchSize documents).exec w.calls =
        (.ok prepared, calls) := by
  obtain ⟨c, hfind, h⟩ := exec_bind_eq_ok.mp h
  rw [(exec_find store name w).1] at h
  obtain ⟨prepared, hembed, -⟩ := exec_bind_eq_ok.mp h
  exact ⟨c, prepared, _, (exec_find store name w).2 c hfind, Prod.ext hembed rfl⟩

theorem exec_onHoldings {α : Type} {x : Address → Action σ α}
    (hc : Shown (store.address name) c w.backend) :
    (store.onHoldings name x).exec w = (((x (store.address name)).exec w.backend).1,
      ⟨((x (store.address name)).exec w.backend).2, (w.locks.handle (store.address name)).2,
        w.calls⟩) := by
  unfold onHoldings
  rw [exec_bind, exec_lock]
  dsimp only
  rw [exec_bind, exec_onBackend_find ⟨w.backend, (w.locks.handle (store.address name)).2, w.calls⟩ hc]
  rfl

theorem onHoldings_eq_ok {α : Type} {x : Address → Action σ α} {r : α}
    (h : ((store.onHoldings name x).exec w).1 = .ok r) :
    ∃ c, Shown (store.address name) c w.backend := by
  obtain ⟨_, -, h⟩ := exec_bind_eq_ok.mp h
  obtain ⟨c, hfind, -⟩ := exec_bind_eq_ok.mp h
  exact ⟨c, (exec_find store name _).2 c hfind⟩

/-- What is created depends on what is found at the address. -/
theorem exec_createIn (store : Store) (now : Timestamp) (name : String) (overwrite reuse : Bool)
    (s : σ) : (store.createIn now name overwrite reuse).exec s =
      if Text.isBlankText name then (.error (.other "Collection name must not be empty"), s)
      else match Backend.collection? (store.address name) s with
        | .error e => (.error e, s)
        | .ok none => (store.add now name).exec s
        | .ok (some c) =>
            if overwrite then
              (do let _ ← .change (Backend.drop (store.address name)); store.add now name :
                Action σ Collection).exec s
            else if reuse then (.ok c, s)
            else (.error (.collectionPresent name), s) := by
  cases hblank : Text.isBlankText name with
  | true => simp [createIn, hblank]
  | false =>
    rcases hread : Backend.collection? (store.address name) s with e | _ | c
    · simp [createIn, hblank, hread]
    · simp [createIn, hblank, hread]
    · cases overwrite with
      | true => simp [createIn, hblank, hread]
      | false => cases reuse <;> simp [createIn, hblank, hread]

lemma exec_create (store : Store) (now : Timestamp) (name : String) (overwrite reuse : Bool)
    (w : World σ) : (store.create now name overwrite reuse).exec w =
      (((store.createIn now name overwrite reuse).exec w.backend).1,
        ⟨((store.createIn now name overwrite reuse).exec w.backend).2,
          (w.locks.handle (store.address name)).2, w.calls⟩) := rfl

/-! ### Requests that succeed on a catalog -/

section Catalog

open Holdings (settled Merged)

variable {f : Fidelity} {k : Catalog f} {w : World (Catalog f)} {now : Timestamp} {a : Address}

omit [Backend σ]

theorem insert_effect {replacing : Bool}
    (hok : ((store.insert name replacing documents).exec w).1 = .ok ()) :
    ∃ h h' prepared, Keyed.find? (store.address name) w.backend.holdings = some h ∧
      ((Indexing.embedMissing store.embedder store.batchSize documents).exec w.calls).1 =
        .ok prepared ∧
      ((store.insert name replacing documents).exec w).2.backend =
        w.backend.store (store.address name) h' ∧
      h.Rewritten h' (settled h.descriptor.dimension prepared)
        (Documents.putAll prepared h.documents) := by
  obtain ⟨c, prepared, calls, hc, hp⟩ := index_eq_ok hok
  obtain ⟨h, hh, -⟩ := Catalog.exists_of_shown hc
  unfold insert at hok ⊢
  rw [exec_index hc hp] at hok ⊢
  have hwrite := Holdings.insert_eq_ok hok
  rw [hwrite] at hok ⊢
  obtain ⟨h', hexec, hrewritten⟩ := Holdings.write_eq_ok hc hh hok
  exact ⟨h, h', prepared, hh, congrArg Prod.fst hp, hexec, hrewritten⟩

theorem update_effect (hok : ((store.update name documents).exec w).1 = .ok ()) :
    ∃ h h' prepared merged, Keyed.find? (store.address name) w.backend.holdings = some h ∧
      ((Indexing.embedMissing store.embedder store.batchSize documents).exec w.calls).1 =
        .ok prepared ∧
      List.Forall₂ (Merged (store.address name) w.backend) prepared merged ∧
      ((store.update name documents).exec w).2.backend =
        w.backend.store (store.address name) h' ∧
      h.Rewritten h' (settled h.descriptor.dimension merged)
        (Documents.putAll merged h.documents) := by
  obtain ⟨c, prepared, calls, hc, hp⟩ := index_eq_ok hok
  obtain ⟨h, hh, -⟩ := Catalog.exists_of_shown hc
  unfold update at hok ⊢
  rw [exec_index hc hp] at hok ⊢
  obtain ⟨merged, hmerged⟩ := Holdings.update_eq_ok hok
  rw [Holdings.exec_update hmerged] at hok ⊢
  obtain ⟨h', hexec, hrewritten⟩ := Holdings.write_eq_ok hc hh hok
  exact ⟨h, h', prepared, merged, hh, congrArg Prod.fst hp, hmerged, hexec, hrewritten⟩

theorem delete_effect {ids : List String} (hok : ((store.delete name ids).exec w).1 = .ok ()) :
    ∃ h, Keyed.find? (store.address name) w.backend.holdings = some h ∧
      ((store.delete name ids).exec w).2.backend = w.backend.store (store.address name)
        { h with documents := Documents.eraseAll ids h.documents } := by
  have hexec : (store.delete name ids).exec w =
      (((store.onHoldings name fun a => Holdings.delete a ids).exec w).1.map fun _ => (),
        ((store.onHoldings name fun a => Holdings.delete a ids).exec w).2) :=
    exec_bind_pure _ (fun _ => ()) w
  rw [hexec] at hok ⊢
  obtain ⟨n, hn, -⟩ := exists_of_map_eq_ok hok
  obtain ⟨c, hc⟩ := onHoldings_eq_ok hn
  obtain ⟨h, hh, -⟩ := Catalog.exists_of_shown hc
  obtain ⟨m, hdelete, -⟩ := Holdings.exec_delete ids hh
  refine ⟨h, hh, ?_⟩
  dsimp only
  rw [exec_onHoldings hc, hdelete]

theorem drop_effect (store : Store) (name : String) (w : World (Catalog f)) :
    ((store.drop name).exec w).2.backend =
      ⟨Keyed.erase (store.address name) w.backend.holdings⟩ := rfl

lemma exec_add (hn : Keyed.find? (store.address name) k.holdings = none) (now : Timestamp) :
    (store.add now name).exec k = (.ok (.fresh name store.metric now),
      ⟨k.holdings ++ [(store.address name, ⟨.fresh name store.metric now, []⟩)]⟩) := by
  unfold add
  rw [exec_bind, exec_write, Catalog.create_of_find?_eq_none hn]
  rfl

lemma exec_replace (k : Catalog f) (store : Store) (now : Timestamp) (name : String) :
    (do let _ ← .change (Backend.drop (store.address name)); store.add now name :
      Action (Catalog f) Collection).exec k =
        (.ok (.fresh name store.metric now), k.found (store.address name)
          (.fresh name store.metric now)) := by
  have hdrop : Backend.drop (store.address name) k =
      .ok (Keyed.contains (store.address name) k.holdings,
        ⟨Keyed.erase (store.address name) k.holdings⟩) := rfl
  rw [exec_bind, exec_change, hdrop]
  exact exec_add Keyed.find?_erase_self now

/-- A collection that is created stands at the end, without documents; one that is there stays as it
is, unless it is overwritten. -/
theorem create_effect {overwrite reuse : Bool} {r : Collection}
    (hok : ((store.create now name overwrite reuse).exec w).1 = .ok r) :
    (overwrite = false ∧ (∃ h, Keyed.find? (store.address name) w.backend.holdings = some h) ∧
      ((store.create now name overwrite reuse).exec w).2.backend = w.backend) ∨
    ((Keyed.find? (store.address name) w.backend.holdings = none ∨ overwrite = true) ∧
      ((store.create now name overwrite reuse).exec w).2.backend =
        ⟨Keyed.erase (store.address name) w.backend.holdings ++
          [(store.address name, ⟨.fresh name store.metric now, []⟩)]⟩) := by
  rw [exec_create] at hok ⊢
  rw [exec_createIn] at hok ⊢
  cases hblank : Text.isBlankText name with
  | true => simp [hblank] at hok
  | false =>
    cases hread : Backend.collection? (store.address name) w.backend with
    | error e => simp [hblank, hread] at hok
    | ok found =>
      cases found with
      | none =>
        have hn := Catalog.find?_of_collection? hread
        refine .inr ⟨.inl hn, ?_⟩
        simp [exec_add hn, Keyed.erase_of_find?_eq_none hn]
      | some c =>
        obtain ⟨h, hh, -⟩ := Catalog.exists_of_shown hread
        cases overwrite with
        | true =>
          refine .inr ⟨.inr rfl, ?_⟩
          simp [exec_replace, Catalog.found, -exec_bind]
        | false =>
          cases reuse with
          | true => simp [hh]
          | false => simp [hblank, hread] at hok

end Catalog

/-! ### Calls that leave a collection alone -/

/-- A call that succeeds has carried out an operation and made its reply of the result. -/
lemma Call.exec_of_ok {α : Type} {x : Action (World σ) α} {F : α → Reply} {c : Call} {r : Reply}
    (hc : c.perform = (do return F (← x))) (hok : (c.perform.exec w).1 = .ok r) :
    ∃ v, x.exec w = (.ok v, c.after w) ∧ F v = r := by
  have hexec := exec_bind_pure x F w
  rw [← hc] at hexec
  rw [hexec] at hok
  obtain ⟨v, hv, hr⟩ := exists_of_map_eq_ok hok
  refine ⟨v, Prod.ext hv ?_, hr⟩
  unfold Call.after
  rw [hexec]

theorem Call.backend_of_reads {c : Call} (hc : c.request.written? = none) (w : World σ) :
    (c.after w).backend = w.backend := by
  have hspec : Spec (fun v : World σ => v.backend = w.backend ∧ v.locks = w.locks) c.perform
      (fun _ v => v.backend = w.backend ∧ w.locks.Grows v.locks)
      fun _ v => v.backend = w.backend ∧ w.locks.Grows v.locks :=
    perform_reads (P := fun s => s = w.backend) c.request hc
  have hafter := hspec w ⟨rfl, rfl⟩
  unfold Call.after
  rcases hx : c.perform.exec w with ⟨e | r, w'⟩ <;> rw [hx] at hafter
  · exact hafter.1
  · exact hafter.1

theorem Call.backend_of_error {f : Fidelity} {c : Call} {w : World (Catalog f)} {e : Fault}
    (he : (c.perform.exec w).1 = .error e) : (c.after w).backend = w.backend :=
  (c.unchanged_of_refinement (Backend.Simulation.refl _) rfl he).1

/-- Where documents are stored, the dimension is fixed, and an update leaves it as it is. -/
theorem settled_of_merged {f : Fidelity} {k : Catalog f} {a : Address} {h : Holding}
    {documents merged : List Document} (hk : k.Indexed) (hh : Keyed.find? a k.holdings = some h)
    (hm : List.Forall₂ (Holdings.Merged a k) documents merged) :
    Holdings.settled h.descriptor.dimension merged = h.descriptor.dimension := by
  unfold Holdings.settled
  cases hm with
  | nil => exact Option.or_none
  | cons hd _ =>
    obtain ⟨old, hold, -⟩ := hd
    obtain ⟨n, hn⟩ := hk.exists_dimension hh hold
    rw [hn]
    rfl

/-- What a call that succeeds and writes to an address makes of a catalog. -/
inductive Call.Effect {f : Fidelity} (c : Call) (a : Address) (w : World (Catalog f)) :
    Catalog f → Prop
  | kept {name : String} {reuse : Bool} {h : Holding} (hr : c.request = .create name false reuse)
      (hh : Keyed.find? a w.backend.holdings = some h) : Effect c a w w.backend
  | created {name : String} {overwrite reuse : Bool}
      (hr : c.request = .create name overwrite reuse)
      (hnew : Keyed.find? a w.backend.holdings = none ∨ overwrite = true) :
      Effect c a w
        ⟨Keyed.erase a w.backend.holdings ++ [(a, ⟨.fresh name c.store.metric c.now, []⟩)]⟩
  | dropped {name : String} (hr : c.request = .drop name) :
      Effect c a w ⟨Keyed.erase a w.backend.holdings⟩
  | inserted {name : String} {replacing : Bool} {documents prepared : List Document}
      {h h' : Holding} (hr : c.request = .insert name replacing documents)
      (hh : Keyed.find? a w.backend.holdings = some h)
      (hp : ((Indexing.embedMissing c.store.embedder c.store.batchSize documents).exec w.calls).1 =
        .ok prepared)
      (hw : h.Rewritten h' (Holdings.settled h.descriptor.dimension prepared)
        (Documents.putAll prepared h.documents)) : Effect c a w (w.backend.store a h')
  | updated {name : String} {documents prepared merged : List Document} {h h' : Holding}
      (hr : c.request = .update name documents)
      (hh : Keyed.find? a w.backend.holdings = some h)
      (hp : ((Indexing.embedMissing c.store.embedder c.store.batchSize documents).exec w.calls).1 =
        .ok prepared)
      (hm : List.Forall₂ (Holdings.Merged a w.backend) prepared merged)
      (hw : h.Rewritten h' (Holdings.settled h.descriptor.dimension merged)
        (Documents.putAll merged h.documents)) : Effect c a w (w.backend.store a h')
  | deleted {name : String} {ids : List String} {h : Holding} (hr : c.request = .delete name ids)
      (hh : Keyed.find? a w.backend.holdings = some h) :
      Effect c a w (w.backend.store a { h with documents := Documents.eraseAll ids h.documents })

/-- **A call that succeeds has the effect of its request.** -/
theorem Call.effect {f : Fidelity} {c : Call} {a : Address} {w : World (Catalog f)} {r : Reply}
    (ha : c.target? = some a) (hok : (c.perform.exec w).1 = .ok r) :
    c.Effect a w (c.after w).backend := by
  obtain ⟨store, now, request⟩ := c
  cases request with
  | create name overwrite reuse =>
    cases ha
    obtain ⟨c, hc, -⟩ := Call.exec_of_ok (x := store.create now name overwrite reuse)
      (F := .collection) rfl hok
    have heffect := create_effect (congrArg Prod.fst hc)
    rw [hc] at heffect
    obtain ⟨rfl, ⟨h, hh⟩, hafter⟩ | ⟨hnew, hafter⟩ := heffect
    · exact hafter ▸ .kept rfl hh
    · exact hafter ▸ .created rfl hnew
  | drop name =>
    cases ha
    obtain ⟨_, hc, -⟩ := Call.exec_of_ok (x := store.drop name) (F := fun _ => .done) rfl hok
    have hafter := drop_effect store name w
    rw [hc] at hafter
    exact hafter ▸ .dropped rfl
  | insert name replacing documents =>
    cases ha
    obtain ⟨_, hc, -⟩ := Call.exec_of_ok (x := store.insert name replacing documents)
      (F := fun _ => .done) rfl hok
    obtain ⟨h, h', prepared, hh, hp, hafter, hw⟩ := insert_effect (congrArg Prod.fst hc)
    rw [hc] at hafter
    exact hafter ▸ .inserted rfl hh hp hw
  | update name documents =>
    cases ha
    obtain ⟨_, hc, -⟩ := Call.exec_of_ok (x := store.update name documents)
      (F := fun _ => .done) rfl hok
    obtain ⟨h, h', prepared, merged, hh, hp, hm, hafter, hw⟩ :=
      update_effect (congrArg Prod.fst hc)
    rw [hc] at hafter
    exact hafter ▸ .updated rfl hh hp hm hw
  | delete name ids =>
    cases ha
    obtain ⟨_, hc, -⟩ := Call.exec_of_ok (x := store.delete name ids) (F := fun _ => .done) rfl hok
    obtain ⟨h, hh, hafter⟩ := delete_effect (congrArg Prod.fst hc)
    rw [hc] at hafter
    exact hafter ▸ .deleted rfl hh
  | _ => cases ha

/-- **What a call does not write to stays as it is.** -/
theorem Call.frame {f : Fidelity} {c : Call} {a : Address} (ha : c.target? ≠ some a)
    (w : World (Catalog f)) :
    Keyed.find? a (c.after w).backend.holdings = Keyed.find? a w.backend.holdings := by
  cases hok : (c.perform.exec w).1 with
  | error e => rw [Call.backend_of_error hok]
  | ok r =>
    cases hb : c.target? with
    | none => rw [Call.backend_of_reads (Option.map_eq_none_iff.mp hb)]
    | some b =>
      have hne : a ≠ b := by
        rintro rfl
        exact ha hb
      have heffect := Call.effect hb hok
      generalize (c.after w).backend = k at heffect ⊢
      cases heffect with
      | kept hr hh => rfl
      | created hr hnew => exact Catalog.find?_found_of_ne hne ..
      | dropped hr => exact Keyed.find?_erase_of_ne hne
      | inserted hr hh hp hw => exact Catalog.find?_store_of_ne hne ..
      | updated hr hh hp hm hw => exact Catalog.find?_store_of_ne hne ..
      | deleted hr hh => exact Catalog.find?_store_of_ne hne ..

end Store

end SemanticStore
