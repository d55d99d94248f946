import SemanticStore.Proofs.Store.Embedded
import SemanticStore.Proofs.Store.Listing
import SemanticStore.Proofs.Store.UpdateEach

/-!
# What an insertion does

Before the first document of a batch is written, the collection is looked up, the batch is embedded,
and its ids and its embeddings are checked. `Store.InsertFault` puts the checks in this order: the
fault of an insertion is that of the first check that fails.

A batch that passes is put document by document. `Documents.inserted` says what this makes of a list:
stored documents stay where they are, each replaced by the last one of the batch with its id, and the
new ids follow in the order in which they first came. `Store.insert_outcome` has both for every world
that is reached on memory or on tables.
-/

namespace SemanticStore

open SemanticStore.Action

/-! ### Lists into which a batch is inserted -/

namespace Documents

variable {d e : Document} {id : String} {batch l : List Document}

/-- The last document of a batch with an id. -/
def last? (id : String) (batch : List Document) : Option Document := find? id batch.reverse

/-- The ids of a batch that a list does not have, in the order in which they first come. -/
def newIds (batch l : List Document) : List String :=
  ((batch.map (·.id)).filter fun id => id ∉ l.map (·.id)).eraseDups

/-- A list into which a batch is inserted: its documents, each replaced by the last one of the batch
with its id, and then the last document of the batch with each id that is new. -/
def inserted (batch l : List Document) : List Document :=
  (l.map fun d => (last? d.id batch).getD d) ++
    (newIds batch l).filterMap fun id => last? id batch

lemma last?_cons (id : String) (d : Document) (batch : List Document) :
    last? id (d :: batch) = (last? id batch).or (if d.id = id then some d else none) := by
  unfold last? find?
  rw [List.reverse_cons, List.find?_append, List.find?_singleton]
  by_cases h : d.id = id <;> simp [h]

lemma last?_cons_of_ne (h : d.id ≠ id) (batch : List Document) :
    last? id (d :: batch) = last? id batch := by
  rw [last?_cons, if_neg h, Option.or_none]

lemma last?_cons_self (d : Document) (batch : List Document) :
    last? d.id (d :: batch) = some ((last? d.id batch).getD d) := by
  rw [last?_cons, if_pos rfl]
  cases last? d.id batch <;> rfl

lemma newIds_cons_of_mem (h : d.id ∈ l.map (·.id)) (batch : List Document) :
    newIds (d :: batch) l = newIds batch l := by
  unfold newIds
  rw [List.map_cons, List.filter_cons_of_neg (by simpa using h)]

lemma newIds_cons_of_notMem (h : d.id ∉ l.map (·.id)) (batch : List Document) :
    newIds (d :: batch) l = d.id :: newIds batch (l ++ [d]) := by
  unfold newIds
  rw [List.map_cons, List.filter_cons_of_pos (by simpa using h), List.eraseDups_cons,
    List.filter_filter]
  congr 2
  refine List.filter_congr fun id _ => ?_
  by_cases hid : id = d.id <;> simp [hid]

lemma newIds_congr {l' : List Document} (h : l'.map (·.id) = l.map (·.id)) (batch : List Document) :
    newIds batch l' = newIds batch l := by
  unfold newIds
  rw [h]

lemma notMem_of_mem_newIds (h : id ∈ newIds batch l) : id ∉ l.map (·.id) := by
  unfold newIds at h
  rw [List.mem_eraseDups, List.mem_filter] at h
  simpa using h.2

theorem nodup_putAll (hl : (l.map (·.id)).Nodup) : ((putAll batch l).map (·.id)).Nodup := by
  induction batch generalizing l with
  | nil => exact hl
  | cons d rest ih => exact ih (nodup_put hl)

/-- **Putting the documents of a batch one after the other inserts the batch.** -/
theorem putAll_eq_inserted (hl : (l.map (·.id)).Nodup) : putAll batch l = inserted batch l := by
  induction batch generalizing l with
  | nil =>
    show l = _
    simp [inserted, newIds, last?, find?]
  | cons d rest ih =>
    show putAll rest (put d l) = _
    rw [ih (nodup_put hl)]
    unfold inserted
    cases h : find? d.id l with
    | some e =>
      -- the document takes the place of a stored one, and may be replaced there once more
      have hmem : d.id ∈ l.map (·.id) := not_imp_comm.mp find?_eq_none_iff.mpr (by simp [h])
      rw [newIds_congr (ids_put h), newIds_cons_of_mem hmem, put_eq_map hl h, List.map_map]
      congr 1
      · refine List.map_congr_left fun d' _ => ?_
        dsimp only [Function.comp]
        by_cases hid : d'.id = d.id
        · rw [if_pos hid, hid, last?_cons_self, Option.getD_some]
        · rw [if_neg hid, last?_cons_of_ne (Ne.symm hid)]
      · refine List.filterMap_congr fun id hid => ?_
        have hne : d.id ≠ id := fun heq => notMem_of_mem_newIds hid (heq ▸ hmem)
        rw [last?_cons_of_ne hne]
    | none =>
      -- the document is appended, as the first with its id
      have hmem : d.id ∉ l.map (·.id) := find?_eq_none_iff.mp h
      rw [put_of_find?_eq_none h, newIds_cons_of_notMem hmem, List.map_append,
        List.filterMap_cons, last?_cons_self, List.append_assoc]
      congr 1
      · refine List.map_congr_left fun d' hd' => ?_
        have hne : d.id ≠ d'.id := fun heq => hmem (heq ▸ List.mem_map_of_mem hd')
        rw [last?_cons_of_ne hne]
      · refine congrArg _ (List.filterMap_congr fun id hid => ?_)
        have hne : d.id ≠ id := by
          rintro rfl
          exact notMem_of_mem_newIds hid (by simp)
        rw [last?_cons_of_ne hne]

/-- What is read of a list into which a batch is inserted, if the batch is given back as it was put. -/
theorem inserted_read {f : Fidelity} {batch l ds : List Document}
    (hbatch : ∀ d ∈ batch, f.document d = .ok d)
    (h : List.Forall₂ (fun d e => f.document d = .ok e) l ds) :
    List.Forall₂ (fun d e => f.document d = .ok e) (inserted batch l) (inserted batch ds) := by
  have hlast : ∀ {id p}, last? id batch = some p → f.document p = .ok p := by
    intro id p hp
    exact hbatch p (List.mem_reverse.mp (mem_of_find? hp))
  have hids : ds.map (·.id) = l.map (·.id) :=
    ids_of_forall₂ h fun _ _ hread => (Fidelity.document_eq_ok hread).1
  unfold inserted
  rw [newIds_congr hids]
  refine List.rel_append ?_ ?_
  · rw [List.forall₂_map_left_iff, List.forall₂_map_right_iff]
    refine h.imp fun d e hread => ?_
    rw [(Fidelity.document_eq_ok hread).1]
    cases hp : last? d.id batch with
    | none => exact hread
    | some p => exact hlast hp
  · refine List.forall₂_same.mpr fun p hp => ?_
    obtain ⟨id, -, hid⟩ := List.mem_filterMap.mp hp
    exact hlast hid

end Documents

/-! ### Batches that are handed over -/

namespace Backend.Refinement

variable {σ : Type} [Backend σ] {f : Fidelity} {R : σ → Catalog f → Prop} {s : σ} {a : Address}

/-- Whether a batch is written is decided by the check of its embeddings. -/
theorem write_fst (hR : Backend.Refinement R) (hs : Present R a s) (c : Collection)
    (documents : List Document) :
    ((Holdings.write a c documents).exec s).1 =
      (Holdings.commonDimension c.dimension documents).map fun _ => () := by
  have hput : ∀ {s' : σ}, Present R a s' →
      ((Holdings.putAll a documents).exec s').1 = .ok () := by
    intro s' hs'
    have hspec := hR.putAll_spec documents s' hs'
    rcases hx : (Holdings.putAll a documents).exec s' with ⟨e | ⟨⟩, s''⟩
    · rw [hx] at hspec
      exact hspec.elim
    · rfl
  unfold Holdings.write Holdings.settle
  cases hfound : Holdings.commonDimension c.dimension documents with
  | error e => rfl
  | ok found =>
    cases hn : c.dimension with
    | some n => exact hput hs
    | none =>
      cases found with
      | none => exact hput hs
      | some n =>
        obtain ⟨s', hs', hpresent⟩ := hR.redescribe_ok hs { c with dimension := some n }
        show ((do
          Action.write (Backend.redescribe a { c with dimension := some n })
          Holdings.putAll a documents : Action σ Unit).exec s).1 = _
        rw [exec_bind, exec_write, hs']
        exact hput hpresent

end Backend.Refinement

namespace Holdings

variable {σ : Type} [Backend σ] {f : Fidelity} {R : σ → Catalog f → Prop} {a : Address}
  {c : Collection} {s : σ} {documents : List Document}

lemma insert_fst (a : Address) (c : Collection) (replacing : Bool) (documents : List Document)
    (s : σ) :
    ((insert a c replacing documents).exec s).1 =
      (if replacing then .ok () else ((refuseDuplicates a c [] documents).exec s).1) >>= fun _ =>
        ((write a c documents).exec s).1 := by
  cases documents with
  | nil =>
    rw [exec_write_nil]
    cases replacing with
    | true => rfl
    | false => rfl
  | cons d rest =>
    cases replacing with
    | true => rfl
    | false =>
      have hkeep : ((refuseDuplicates a c [] (d :: rest)).exec s).2 = s :=
        Spec.exec_snd_eq (refuseDuplicates_spec (d :: rest) [])
      show ((do
        refuseDuplicates a c [] (d :: rest)
        write a c (d :: rest) : Action σ Unit).exec s).1 = _
      rw [exec_bind]
      rcases hx : (refuseDuplicates a c [] (d :: rest)).exec s with ⟨e | ⟨⟩, s'⟩
      · rfl
      · rw [hx] at hkeep
        obtain rfl : s' = s := hkeep
        rfl

/-- **A batch of completed documents is refused for its ids, or else for its embeddings.** -/
theorem insert_eq_error_iff (hR : Backend.Refinement R) (hs : Backend.Refinement.Present R a s)
    (hids : ∀ id, ∃ b, Backend.hasDocument a id s = .ok b)
    (hd : ∀ d ∈ documents, d.embedding.isSome) {replacing : Bool} {e : Fault} :
    ((insert a c replacing documents).exec s).1 = .error e ↔
      replacing = false ∧ FirstFault (Repeated a s c.name) (documents.map (·.id)) e ∨
      (replacing = false → ∀ e', ¬ FirstFault (Repeated a s c.name) (documents.map (·.id)) e') ∧
        FirstFault (fun _ => Misfit (settled c.dimension documents)) documents e := by
  have hrepeated : ∀ e', ((refuseDuplicates a c [] documents).exec s).1 = .error e' ↔
      FirstFault (Repeated a s c.name) (documents.map (·.id)) e' := by
    intro e'
    rw [refuseDuplicates_eq_error_iff hids]
    simp only [List.append_nil]
  rw [insert_fst, hR.write_fst hs, bind_eq_error_iff]
  simp only [map_eq_error_iff, commonDimension_eq_error_iff hd, ← hrepeated]
  cases replacing with
  | true => simp
  | false => simp [exists_eq_ok_iff]

end Holdings

namespace Store

open Holdings (Misfit Repeated settled)

variable {σ : Type} [Backend σ] {store : Store} {name : String} {replacing : Bool}
  {c : Collection} {documents prepared : List Document} {calls : Calls} {w : World σ}

/-! ### Batches that are not handed over -/

lemma exec_onBackend_find_of_missing
    (hc : Backend.collection? (store.address name) w.backend = .ok none) :
    (World.onBackend (store.find name)).exec w = (.error (.collectionMissing name), w) := by
  unfold World.onBackend find
  rw [exec_within, exec_bind, exec_read, hc]
  rfl

theorem exec_index_of_missing {write : Address → Collection → List Document → Action σ Unit}
    (hc : Backend.collection? (store.address name) w.backend = .ok none) :
    (store.index name documents write).exec w = (.error (.collectionMissing name), w) := by
  unfold index
  rw [exec_bind, exec_onBackend_find_of_missing hc]

theorem index_of_unembedded {write : Address → Collection → List Document → Action σ Unit}
    {fault : Fault} (hc : Shown (store.address name) c w.backend)
    (hp : ((Indexing.embedMissing store.embedder store.batchSize documents).exec w.calls).1 =
      .error fault) :
    ((store.index name documents write).exec w).1 = .error fault := by
  unfold index
  rw [exec_bind, exec_onBackend_find w hc]
  dsimp only
  unfold World.onCalls
  rw [exec_bind, exec_within, hp]

lemma after_insert (store : Store) (now : Timestamp) (name : String) (replacing : Bool)
    (documents : List Document) (w : World σ) :
    Call.after ⟨store, now, .insert name replacing documents⟩ w =
      ((store.insert name replacing documents).exec w).2 :=
  congrArg Prod.snd (exec_bind_pure _ (fun _ => Reply.done) w)

/-! ### What an insertion does -/

/-- Why a batch is not inserted: the first of these that is so, in this order. -/
inductive InsertFault (store : Store) (name : String) (replacing : Bool)
    (documents : List Document) (w : World σ) : Fault → Prop
  /-- there is no such collection -/
  | missing (hc : Backend.collection? (store.address name) w.backend = .ok none) :
      InsertFault store name replacing documents w (.collectionMissing name)
  /-- the embedder refuses a run of texts -/
  | unembedded {c : Collection} {runs : List (List String)} {e : Fault}
      (hc : Shown (store.address name) c w.backend)
      (hruns : Indexing.Runs store.batchSize documents runs)
      (h : FirstFault (fun earlier => Indexing.Refusal store.embedder (w.calls ++ earlier)) runs e) :
      InsertFault store name replacing documents w e
  /-- an id is stored or came before -/
  | repeated {c : Collection} {prepared : List Document} {e : Fault}
      (hc : Shown (store.address name) c w.backend)
      (hp : Indexing.Prepares store.embedder w.calls store.batchSize documents prepared)
      (hnew : replacing = false)
      (h : FirstFault (Repeated (store.address name) w.backend name) (documents.map (·.id)) e) :
      InsertFault store name replacing documents w e
  /-- an embedding is not finite or has another length than the others -/
  | misfit {c : Collection} {prepared : List Document} {e : Fault}
      (hc : Shown (store.address name) c w.backend)
      (hp : Indexing.Prepares store.embedder w.calls store.batchSize documents prepared)
      (hnew : replacing = false → ∀ e', ¬ FirstFault
        (Repeated (store.address name) w.backend name) (documents.map (·.id)) e')
      (h : FirstFault (fun _ => Misfit (settled c.dimension prepared)) prepared e) :
      InsertFault store name replacing documents w e

/-! Which faults a batch can have, as far as it comes. -/

lemma insertFault_iff_of_missing {e : Fault}
    (hc : Backend.collection? (store.address name) w.backend = .ok none) :
    InsertFault store name replacing documents w e ↔ e = .collectionMissing name := by
  have hnone : ∀ c, ¬ Shown (store.address name) c w.backend := by
    intro c hc'
    cases hc.symm.trans hc'
  constructor
  · intro hfault
    cases hfault with
    | missing => rfl
    | unembedded hc => exact absurd hc (hnone _)
    | repeated hc => exact absurd hc (hnone _)
    | misfit hc => exact absurd hc (hnone _)
  · rintro rfl
    exact .missing hc

lemma insertFault_iff_of_unembedded {e fault : Fault}
    (hc : Shown (store.address name) c w.backend)
    (hp : ((Indexing.embedMissing store.embedder store.batchSize documents).exec w.calls).1 =
      .error fault) :
    InsertFault store name replacing documents w e ↔ e = fault := by
  constructor
  · intro hfault
    cases hfault with
    | missing hc' => cases hc'.symm.trans hc
    | unembedded _ hruns h =>
      obtain rfl := Indexing.runs_iff.mp hruns
      rw [← Indexing.embedMissing_eq_error_iff, hp] at h
      exact (Except.error.inj h).symm
    | repeated _ hp' =>
      rw [← Indexing.embedMissing_eq_ok_iff_prepares, hp] at hp'
      cases hp'
    | misfit _ hp' =>
      rw [← Indexing.embedMissing_eq_ok_iff_prepares, hp] at hp'
      cases hp'
  · rintro rfl
    exact .unembedded hc (Indexing.runs_iff.mpr rfl) (Indexing.embedMissing_eq_error_iff.mp hp)

lemma insertFault_iff_of_embedded {e : Fault} (hc : Shown (store.address name) c w.backend)
    (hp : ((Indexing.embedMissing store.embedder store.batchSize documents).exec w.calls).1 =
      .ok prepared) :
    InsertFault store name replacing documents w e ↔
      replacing = false ∧
        FirstFault (Repeated (store.address name) w.backend name) (documents.map (·.id)) e ∨
      (replacing = false → ∀ e', ¬ FirstFault
        (Repeated (store.address name) w.backend name) (documents.map (·.id)) e') ∧
        FirstFault (fun _ => Misfit (settled c.dimension prepared)) prepared e := by
  constructor
  · intro hfault
    cases hfault with
    | missing hc' => cases hc'.symm.trans hc
    | unembedded _ hruns h =>
      obtain rfl := Indexing.runs_iff.mp hruns
      rw [← Indexing.embedMissing_eq_error_iff, hp] at h
      cases h
    | repeated _ _ hnew h => exact .inl ⟨hnew, h⟩
    | misfit hc' hp' hnew h =>
      rw [← Indexing.embedMissing_eq_ok_iff_prepares, hp] at hp'
      cases hp'
      cases hc.symm.trans hc'
      exact .inr ⟨hnew, h⟩
  · have hprepares := Indexing.embedMissing_eq_ok_iff_prepares.mp hp
    rintro (⟨hnew, h⟩ | ⟨hnew, h⟩)
    · exact .repeated hc hprepares hnew h
    · exact .misfit hc hprepares hnew h

/-- What an insertion does, whatever the world and the batch: the fault it ends with, and the
documents that are there if it ends without one. -/
structure InsertOutcome (f : Fidelity) (store : Store) (name : String) (replacing : Bool)
    (documents : List Document) (w : World σ) : Prop where
  refused : ∀ e, ((store.insert name replacing documents).exec w).1 = .error e ↔
    InsertFault store name replacing documents w e
  accepted : (∀ e, ¬ InsertFault store name replacing documents w e) →
    ((store.insert name replacing documents).exec w).1 = .ok ()
  /-- without a collection, the embedder is not called -/
  uncalled : Backend.collection? (store.address name) w.backend = .ok none →
    ((store.insert name replacing documents).exec w).2.calls = w.calls
  /-- the batch, with the embeddings that it brings and those that the embedder answers, is inserted
  into what was listed before -/
  inserted : ((store.insert name replacing documents).exec w).1 = .ok () → ∃ prepared before,
    Indexing.Prepares store.embedder w.calls store.batchSize documents prepared ∧
    Backend.Lists f (store.address name) before w.backend ∧
    Backend.Lists f (store.address name) (Documents.inserted prepared before)
      ((store.insert name replacing documents).exec w).2.backend ∧
    ((∀ d ∈ Documents.inserted prepared before, f.document d = .ok d) →
      Backend.documents (store.address name)
        ((store.insert name replacing documents).exec w).2.backend =
          .ok (Documents.inserted prepared before))
  /-- if the batch is given back as it was put, then it is inserted into what was read before -/
  scanned : ((store.insert name replacing documents).exec w).1 = .ok () → ∀ prepared before,
    Indexing.Prepares store.embedder w.calls store.batchSize documents prepared →
    (∀ d ∈ prepared, f.document d = .ok d) →
    Backend.documents (store.address name) w.backend = .ok before →
    Backend.documents (store.address name)
      ((store.insert name replacing documents).exec w).2.backend =
        .ok (Documents.inserted prepared before)

section Refinement

variable {f : Fidelity} {R : σ → Catalog f → Prop} {v : World (Catalog f)}

/-- A collection that is there can be looked up, and bears its name. -/
lemma exists_shown_of_described (hR : Backend.Refinement R) {s : σ} {k : Catalog f} (hk : R s k)
    (hdescribed : k.Described) {a : Address} {h : Holding}
    (hh : Keyed.find? a k.holdings = some h) : Shown a h.shown s ∧ h.shown.name = a.name := by
  refine ⟨(shown_iff hR hk).mpr ?_, (hdescribed a h (Keyed.mem_of_find? hh)).name⟩
  unfold Shown
  rw [hdescribed.collection?_eq, hh]
  rfl

/-- **An insertion ends with a fault just if one of its checks has that fault.** -/
theorem insert_eq_error_iff (hR : Backend.Refinement R) (hwv : World.Related R w v)
    (hsound : v.backend.Sound) (hdescribed : v.backend.Described) {e : Fault} :
    ((store.insert name replacing documents).exec w).1 = .error e ↔
      InsertFault store name replacing documents w e := by
  have hlookup := hR.collection?_eq hwv.1 (store.address name)
  rw [hdescribed.collection?_eq] at hlookup
  unfold insert
  cases hh : Keyed.find? (store.address name) v.backend.holdings with
  | none =>
    rw [hh] at hlookup
    rw [insertFault_iff_of_missing hlookup, exec_index_of_missing hlookup, Except.error.injEq,
      eq_comm]
  | some h =>
    obtain ⟨hc, hname⟩ := exists_shown_of_described hR hwv.1 hdescribed hh
    have hname : h.shown.name = name := hname
    cases hp : ((Indexing.embedMissing store.embedder store.batchSize documents).exec
        w.calls).1 with
    | error fault =>
      rw [insertFault_iff_of_unembedded hc hp, index_of_unembedded hc hp, Except.error.injEq,
        eq_comm]
    | ok prepared =>
      have hcompletes := Indexing.completes_embedMissing hp
      have hsome : ∀ d ∈ prepared, d.embedding.isSome := by
        intro d hd
        obtain ⟨_, -, hcomplete⟩ := exists_mem_of_forall₂ hcompletes.flip hd
        exact hcomplete.embedding
      have hlists := (Catalog.lists hsound hh).of_refinement hR hwv.1
      rw [insertFault_iff_of_embedded hc hp, exec_index hc (Prod.ext hp rfl),
        Holdings.insert_eq_error_iff hR ⟨_, hwv.1, h, hh⟩ (fun id => ⟨_, hlists.has id⟩) hsome,
        Indexing.ids_of_completes hcompletes, hname]

/-- A batch that succeeds is inserted into the list of documents. -/
theorem insert_lists (hR : Backend.Refinement R) (hwv : World.Related R w v)
    (hsound : v.backend.Sound) {store : Store} {name : String} {replacing : Bool}
    {documents : List Document} (hok : ((store.insert name replacing documents).exec w).1 = .ok ()) :
    ∃ prepared,
      ((Indexing.embedMissing store.embedder store.batchSize documents).exec w.calls).1 =
        .ok prepared ∧
      Backend.Lists f (store.address name) (v.backend.documentsAt (store.address name))
        w.backend ∧
      Backend.Lists f (store.address name)
        (Documents.inserted prepared (v.backend.documentsAt (store.address name)))
        ((store.insert name replacing documents).exec w).2.backend := by
  obtain ⟨hreply, hafter⟩ := insert_sim store hR trivial name replacing documents hwv
  obtain ⟨h, h', prepared, hh, hp, hbackend, hwritten⟩ :=
    insert_effect (Agree.eq_iff.mp hreply ▸ hok)
  have hids := hsound.ids_of_find? hh
  have hbefore := Catalog.lists hsound hh
  rw [Catalog.documentsAt_of_find? hh] at hbefore ⊢
  have hlists := Catalog.lists_store hsound
    (hwritten.documents ▸ Documents.nodup_putAll hids) (store.address name)
  rw [hwritten.documents, Documents.putAll_eq_inserted hids, ← hbackend] at hlists
  exact ⟨prepared, hwv.2 ▸ hp, hbefore.of_refinement hR hwv.1, hlists.of_refinement hR hafter.1⟩

/-- **Insertions have this outcome on every backend that refines a catalog.** -/
theorem insertOutcome_of_refinement (hR : Backend.Refinement R) (hwv : World.Related R w v)
    (hsound : v.backend.Sound) (hdescribed : v.backend.Described) (store : Store) (name : String)
    (replacing : Bool) (documents : List Document) :
    InsertOutcome f store name replacing documents w where
  refused e := insert_eq_error_iff hR hwv hsound hdescribed
  accepted h := by
    cases hreply : ((store.insert name replacing documents).exec w).1 with
    | ok => rfl
    | error e => exact absurd ((insert_eq_error_iff hR hwv hsound hdescribed).mp hreply) (h e)
  uncalled hc := by
    unfold insert
    rw [exec_index_of_missing hc]
  inserted hok := by
    obtain ⟨prepared, hp, hbefore, hafter⟩ := insert_lists hR hwv hsound hok
    exact ⟨prepared, _, Indexing.embedMissing_eq_ok_iff_prepares.mp hp, hbefore, hafter, hafter.scan_eq⟩
  scanned hok prepared' ds hp' hread hds := by
    obtain ⟨prepared, hp, hbefore, hafter⟩ := insert_lists hR hwv hsound hok
    rw [← Indexing.embedMissing_eq_ok_iff_prepares, hp] at hp'
    cases hp'
    rw [hafter.scan]
    exact mapM_eq_ok_of_forall₂ (Documents.inserted_read hread
      (forall₂_of_mapM_eq_ok (hbefore.scan.symm.trans hds)))

end Refinement

/-- **An insertion into any world reached on memory or on tables has the outcome that its checks and
its batch give it.** Tables are to be filled by a clock in the years 0 to 9999. -/
theorem insert_outcome (calls : List Call) (store : Store) (name : String) (replacing : Bool)
    (documents : List Document) :
    InsertOutcome .exact store name replacing documents (reached calls Memory.empty) ∧
      ((∀ c ∈ calls, c.now.InEra) →
        InsertOutcome .textual store name replacing documents (reached calls Tables.empty)) := by
  constructor
  · exact insertOutcome_of_refinement Memory.refinement
      (related_reached Memory.refinement Memory.shows_empty calls)
      (reachable_reached calls _).sound (described_reached fun _ _ => trivial) ..
  · intro hcalls
    exact insertOutcome_of_refinement Tables.refinement
      (related_reached Tables.refinement Tables.shows_empty calls)
      (reachable_reached calls _).sound (described_reached hcalls) ..

/-- Two documents, for a collection that is new. -/
def stock : List Document :=
  [⟨"1", "a fox", none, some [.one]⟩, ⟨"2", "a wolf", none, some [.zero]⟩]

def stocked : List Call :=
  [emptyCollection, ⟨offline .default, instant 1, .insert "animals" false stock⟩]

/-- A batch with an id that is stored and a new one that comes twice. Only the stored one comes with an
embedding. -/
def mixed : List Document :=
  [⟨"3", "a lynx", none, none⟩, ⟨"2", "a dingo", none, some [.zero]⟩, ⟨"3", "a fox", none, none⟩,
    ⟨"4", "a puma", none, none⟩]

/-- The batch is refused for the stored id, or replaces that document and appends the last one with each
new id, under the embeddings that the embedder gives them. -/
theorem insert_outcome_mixed :
    let t := reached stocked Tables.empty
    (∀ c ∈ stocked, c.now.InEra) ∧
      InsertFault foxes "animals" false mixed t (.duplicateKey "animals" "2") ∧
      ((foxes.insert "animals" true mixed).exec t).1 = .ok () ∧
      Backend.documents ⟨"default", "animals"⟩
        ((foxes.insert "animals" true mixed).exec t).2.backend =
          .ok [⟨"1", "a fox", none, some [.one]⟩, ⟨"2", "a dingo", none, some [.zero]⟩,
            ⟨"3", "a fox", none, some [.one]⟩, ⟨"4", "a puma", none, some [⟨0xbf800000⟩]⟩] := by
  intro t
  have hera : ∀ c ∈ stocked, c.now.InEra := by decide
  have hok : ((foxes.insert "animals" true mixed).exec t).1 = .ok () := by decide +kernel
  have hread : ∀ d : Document, d.metadata = none → Fidelity.textual.document d = .ok d :=
    fun d hd => Fidelity.document_of_keeps (hd ▸ Body.stable_none)
  -- what is scanned before is what the first batch left
  have hempty : Backend.documents ⟨"default", "animals"⟩
      (reached [emptyCollection] Tables.empty).backend = .ok [] :=
    (Tables.refinement.documents (related_reached Tables.refinement Tables.shows_empty
      [emptyCollection]).1 trivial).trans rfl
  have hstock := ((insert_outcome [emptyCollection] (offline .default) "animals" false stock).2
    (by decide)).scanned (by decide +kernel) stock []
      (Indexing.prepares_of_attached (by decide)) (fun d hd => hread d (by revert d; decide)) hempty
  rw [show Documents.inserted stock [] = stock from rfl, ← after_insert _ (instant 1)] at hstock
  -- the documents without an embedding are embedded two at a time
  have hanswered : Indexing.Answered foxes.embedder t.calls [["a lynx", "a fox"], ["a puma"]]
      ([[⟨0xbf800000⟩], [.one]] ++ ([[⟨0xbf800000⟩]] ++ [])) :=
    .cons rfl rfl (.cons rfl rfl .nil)
  have hprepares : Indexing.Prepares foxes.embedder t.calls foxes.batchSize mixed
      [⟨"3", "a lynx", none, some [⟨0xbf800000⟩]⟩, ⟨"2", "a dingo", none, some [.zero]⟩,
        ⟨"3", "a fox", none, some [.one]⟩, ⟨"4", "a puma", none, some [⟨0xbf800000⟩]⟩] :=
    ⟨_, _, ⟨rfl, by decide, by decide, by decide⟩, hanswered,
      .computed rfl (.attached rfl (.computed rfl (.computed rfl .nil)))⟩
  obtain ⟨-, refused⟩ := insert_outcome stocked foxes "animals" false mixed
  obtain ⟨-, replaced⟩ := insert_outcome stocked foxes "animals" true mixed
  refine ⟨hera, ((refused hera).refused _).mp (eq_error_of_fault? (by decide +kernel)), hok, ?_⟩
  exact (replaced hera).scanned hok _ stock hprepares (fun d hd => hread d (by revert d; decide))
    hstock

end Store

end SemanticStore
