import SemanticStore.Proofs.Body
import SemanticStore.Proofs.Store.Histories
import SemanticStore.Proofs.Store.Preparation

/-!
# One update at a time

An update of a batch looks up all stored metadata before it writes the first document. So a document
that brings no metadata does not get what the batch brings for its id, but what was stored before.
Where documents are updated one at a time (`Store.updateEach`), it does (`Document.carried`), and this
is all there is between the two (`Store.updateEach_eq_update`).
-/

namespace SemanticStore

open SemanticStore.Action

/-! ### Metadata that is read as it was written -/

/-- Metadata is read as it was written, whatever content it is written with. -/
def Body.Stable (metadata : Option Members) : Prop :=
  ∀ content, decode? (encode content metadata) = some (content, metadata)

theorem Body.stable_of_plain {metadata : Option Members} (h : Plain metadata)
    (hshallow : ∀ m, metadata = some m → (Json.object m).depth < Json.Raw.maxDepth) :
    Stable metadata := fun content => by
  rw [decode?_encode h, if_pos ((depth_toJson_le content).mpr hshallow)]

lemma Body.stable_none : Stable none :=
  stable_of_plain ⟨by rintro m ⟨⟩, by rintro m ⟨⟩⟩ (by rintro m ⟨⟩)

/-- Metadata that is given back as it was put. -/
def Fidelity.Keeps : Fidelity → Option Members → Prop
  | exact, _ => True
  | textual, metadata => Body.Stable metadata

lemma Fidelity.document_of_keeps {f : Fidelity} {d : Document} (h : f.Keeps d.metadata) :
    f.document d = .ok d := by
  cases f with
  | exact => rfl
  | textual =>
    unfold document Body.decode
    dsimp only
    rw [h d.content]

/-! ### What documents take from those before them -/

namespace Document

/-- A document takes the metadata of another with its id if it brings none. -/
def inherit (d e : Document) : Document :=
  if e.id = d.id then { e with metadata := e.metadata.orElse fun _ => d.metadata } else e

/-- Each document that brings no metadata takes that of the last one before it with its id that has
some. -/
def carried : List Document → List Document
  | [] => []
  | d :: rest => d :: (carried rest).map d.inherit

variable {d e : Document}

@[simp] lemma inherit_id (d e : Document) : (d.inherit e).id = e.id := by
  unfold inherit
  split <;> rfl

@[simp] lemma inherit_embedding (d e : Document) : (d.inherit e).embedding = e.embedding := by
  unfold inherit
  split <;> rfl

lemma inherit_of_ne (h : e.id ≠ d.id) : d.inherit e = e := if_neg h

lemma inherit_of_eq (h : e.id = d.id) :
    d.inherit e = { e with metadata := e.metadata.orElse fun _ => d.metadata } := if_pos h

lemma exists_of_mem_carried {documents : List Document} (h : e ∈ carried documents) :
    ∃ d ∈ documents, d.id = e.id ∧ d.embedding = e.embedding := by
  induction documents generalizing e with
  | nil => cases h
  | cons d rest ih =>
    rcases List.mem_cons.mp h with rfl | h
    · exact ⟨e, List.mem_cons_self .., rfl, rfl⟩
    · obtain ⟨r, hr, rfl⟩ := List.mem_map.mp h
      obtain ⟨d', hd', hid, hembedding⟩ := ih hr
      exact ⟨d', List.mem_cons_of_mem _ hd', by simp [hid], by simp [hembedding]⟩

/-- Where metadata is brought for an id, it is brought again each time the id comes again. -/
def Renewing (documents : List Document) : Prop :=
  documents.Pairwise fun d e => e.id = d.id → d.metadata.isSome → e.metadata.isSome

/-- Nothing is taken from other documents where metadata is renewed. -/
theorem carried_of_renewing {documents : List Document} (h : Renewing documents) :
    carried documents = documents := by
  induction documents with
  | nil => rfl
  | cons d rest ih =>
    obtain ⟨hd, hrest⟩ := List.pairwise_cons.mp h
    rw [carried, ih hrest]
    have hself : ∀ e ∈ rest, d.inherit e = e := by
      intro e he
      by_cases hid : e.id = d.id
      · have hsome := hd e he hid
        rw [inherit_of_eq hid]
        cases hdm : d.metadata with
        | none => simp
        | some m =>
          obtain ⟨m', hm'⟩ := Option.isSome_iff_exists.mp (hsome (by rw [hdm]; rfl))
          rw [hm', Option.orElse_some, ← hm']
      · exact inherit_of_ne hid
    rw [List.map_congr_left hself, List.map_id']

end Document

/-! ### Batches that are embedded and merged -/

namespace Indexing

variable {e : String → Except Fault Embedding} {d d' : Document}
  {documents prepared : List Document}

/-- Metadata has no part in embedding. -/
lemma prepare_inherit {r r' : Document} (hid : d'.id = d.id) (hmetadata : d'.metadata = d.metadata)
    (h : prepare e r = .ok r') : prepare e (d.inherit r) = .ok (d'.inherit r') := by
  obtain ⟨q, hq, rfl⟩ := prepare_eq_ok_iff.mp h
  refine prepare_eq_ok_iff.mpr ⟨q, ?_⟩
  by_cases hr : r.id = d.id
  · rw [Document.inherit_of_eq hr,
      Document.inherit_of_eq (e := { r with embedding := some q }) (hr.trans hid.symm), hmetadata]
    exact ⟨hq, rfl⟩
  · rw [Document.inherit_of_ne hr,
      Document.inherit_of_ne (e := { r with embedding := some q }) (hid ▸ hr)]
    exact ⟨hq, rfl⟩

theorem prepare_carried
    (h : List.Forall₂ (fun d d' => prepare e d = .ok d') documents prepared) :
    List.Forall₂ (fun d d' => prepare e d = .ok d') (Document.carried documents)
      (Document.carried prepared) := by
  induction h with
  | nil => exact .nil
  | @cons d d' rest rest' hd hrest ih =>
    have hd' := prepare_eq_ok_iff.mp hd
    refine .cons hd ?_
    rw [List.forall₂_map_left_iff, List.forall₂_map_right_iff]
    obtain ⟨q, -, rfl⟩ := hd'
    exact ih.imp fun r r' hr => prepare_inherit rfl rfl hr

end Indexing

namespace Holdings

variable {σ : Type} [Backend σ] {a : Address} {s : σ} {documents merged : List Document}

lemma exists_merged
    (h : ∀ d ∈ documents, ∃ old, Backend.document? a d.id s = .ok (some old)) :
    ∃ merged, List.Forall₂ (Merged a s) documents merged := by
  induction documents with
  | nil => exact ⟨[], .nil⟩
  | cons d rest ih =>
    obtain ⟨⟨old, hold⟩, hrest⟩ := List.forall_mem_cons.mp h
    obtain ⟨merged, hmerged⟩ := ih hrest
    exact ⟨_ :: merged, .cons ⟨old, hold, rfl⟩ hmerged⟩

lemma commonDimension_of_fits {n : ℕ}
    (h : ∀ d ∈ documents, Embedding.Fits (some n) d.embedding) :
    commonDimension (some n) documents = .ok (some n) := by
  induction documents with
  | nil => rfl
  | cons d rest ih =>
    obtain ⟨⟨e, he, hfinite, hn⟩, hrest⟩ := List.forall_mem_cons.mp h
    have hn : n = e.length := Option.some.inj hn
    simp only [commonDimension, he, hfinite, Bool.not_true, Bool.false_eq_true, if_false, if_pos hn]
    exact ih hrest

/-- Where a dimension is fixed, a batch that fits it is written without more ado. -/
lemma exec_write_of_fits {c : Collection} {n : ℕ} (hn : c.dimension = some n)
    (h : ∀ d ∈ documents, Embedding.Fits (some n) d.embedding) :
    (write a c documents).exec s = (putAll a documents).exec s := by
  unfold write settle
  rw [hn, commonDimension_of_fits h]
  rfl

end Holdings

namespace Store

open Holdings (Merged)

/-! ### Collections with a dimension -/

section Sized

variable {σ : Type} [Backend σ] {f : Fidelity} {R : σ → Catalog f → Prop} {a : Address} {n : ℕ}
  {s : σ}

/-- The state is that of a catalog which has a collection of this dimension at the address, and the
collection can be looked up. -/
def Sized (R : σ → Catalog f → Prop) (a : Address) (n : ℕ) (s : σ) : Prop :=
  ∃ k h c, R s k ∧ Keyed.find? a k.holdings = some h ∧ f.collection a h.descriptor = .ok c ∧
    h.descriptor.dimension = some n

lemma Sized.exists_shown (hR : Backend.Refinement R) (hs : Sized R a n s) :
    ∃ c, Shown a c s ∧ c.dimension = some n := by
  obtain ⟨k, h, c, hk, hh, hc, hn⟩ := hs
  refine ⟨{ c with count := h.documents.length }, (shown_iff hR hk).mpr ?_,
    (Fidelity.dimension_of_collection hc).trans hn⟩
  exact Catalog.shown_iff_read.mpr ⟨h, c, hh, hc, rfl⟩

theorem Sized.put (hR : Backend.Refinement R) (hs : Sized R a n s) (d : Document) :
    ∃ s', Backend.put a d s = .ok s' ∧ Sized R a n s' ∧
      Backend.document? a d.id s' = (f.document d).map some ∧
      ∀ id, id ≠ d.id → Backend.document? a id s' = Backend.document? a id s := by
  obtain ⟨k, h, c, hk, hh, hc, hn⟩ := hs
  have hput := hR.put (a := a) d hk trivial
  rw [Catalog.put_of_find? hh] at hput
  obtain ⟨s', hs', hk'⟩ := hput.symm.exists_ok
  refine ⟨s', hs', ⟨_, _, c, hk', Catalog.find?_store_self .., hc, hn⟩, ?_, fun id hid => ?_⟩
  · rw [hR.document? _ hk' trivial, Catalog.document?_of_find? (Catalog.find?_store_self ..)]
    simp [Catalog.read?]
  · rw [hR.document? _ hk' trivial, hR.document? _ hk trivial,
      Catalog.document?_of_find? (Catalog.find?_store_self ..), Catalog.document?_of_find? hh]
    simp [Catalog.read?, Documents.find?_put_of_ne hid]

end Sized

/-! ### Updates of a collection with a dimension -/

section Update

variable {σ : Type} [Backend σ] {f : Fidelity} {R : σ → Catalog f → Prop} {n : ℕ}
  {store : Store} {name : String} {e : String → Except Fault Embedding}

/-- Updates documents one at a time, up to the first that fails. -/
def updateEach (store : Store) (name : String) : List Document → Action (World σ) Unit
  | [] => return ()
  | d :: rest => do
      store.update name [d]
      store.updateEach name rest

/-- An update whose documents are stored and fit the dimension puts them one after the other. -/
theorem exec_update_of_merged (hR : Backend.Refinement R) (he : store.embedder.Separate e)
    {w : World σ} (hs : Sized R (store.address name) n w.backend)
    {documents prepared merged : List Document}
    (hp : List.Forall₂ (fun d d' => Indexing.prepare e d = .ok d') documents prepared)
    (hm : List.Forall₂ (Merged (store.address name) w.backend) prepared merged)
    (hfits : ∀ d ∈ prepared, Embedding.Fits (some n) d.embedding) :
    ((store.update name documents).exec w).1 =
        ((Holdings.putAll (store.address name) merged).exec w.backend).1 ∧
      ((store.update name documents).exec w).2.backend =
        ((Holdings.putAll (store.address name) merged).exec w.backend).2 := by
  obtain ⟨c, hc, hn⟩ := hs.exists_shown hR
  have hembed := Indexing.embedMissing_eq he store.batchSize documents w.calls
  rw [mapM_eq_ok_of_forall₂ hp] at hembed
  have hmergedFits : ∀ m ∈ merged, Embedding.Fits (some n) m.embedding := by
    intro m hmem
    obtain ⟨d, hd, hdm⟩ := exists_mem_of_forall₂ hm.flip hmem
    rw [Holdings.Merged.embedding_eq hdm]
    exact hfits d hd
  unfold update
  rw [exec_index hc (Prod.ext hembed rfl), Holdings.exec_update hm,
    Holdings.exec_write_of_fits hn hmergedFits]
  exact ⟨rfl, rfl⟩

/-- After a document was put, a document is merged as one that takes its metadata was before. -/
lemma merged_of_put {a : Address} {s s' : σ} {d m r x : Document} (hm : Merged a s d m)
    (hself : Backend.document? a m.id s' = (f.document m).map some)
    (hother : ∀ id, id ≠ m.id → Backend.document? a id s' = Backend.document? a id s)
    (hkeeps : r.id = d.id → f.Keeps m.metadata) (hx : Merged a s (d.inherit r) x) :
    Merged a s' r x := by
  obtain ⟨old, hold, rfl⟩ := hm
  obtain ⟨old', hold', rfl⟩ := hx
  rw [Document.inherit_id] at hold'
  by_cases hid : r.id = d.id
  · obtain rfl : old = old' := by simpa [← hid, hold'] using hold.symm
    refine ⟨{ d with metadata := d.metadata.orElse fun _ => old.metadata }, ?_, ?_⟩
    · rw [hid]
      rw [Fidelity.document_of_keeps (hkeeps hid)] at hself
      exact hself
    · rw [Document.inherit_of_eq hid]
      cases r.metadata <;> rfl
  · rw [Document.inherit_of_ne hid]
    exact ⟨old', (hother r.id hid).trans hold', rfl⟩

/-- Where an id comes again, what is stored with it is given back as it was put. -/
def Keeping (f : Fidelity) (a : Address) (s : σ) (documents : List Document) : Prop :=
  documents.Pairwise fun d e => e.id = d.id → f.Keeps d.metadata ∧
    ∀ old, Backend.document? a d.id s = .ok (some old) → f.Keeps old.metadata

/-- What an update leaves with an id that comes again is given back as it was put. -/
lemma Keeping.merged {a : Address} {s : σ} {d d' m : Document} {rest : List Document}
    (hk : Keeping f a s (d :: rest)) (hid : d'.id = d.id) (hmetadata : d'.metadata = d.metadata)
    (hm : Merged a s d' m) : ∀ r ∈ rest, r.id = d.id → f.Keeps m.metadata := by
  intro r hr hrd
  obtain ⟨hd, hstored⟩ := (List.pairwise_cons.mp hk).1 r hr hrd
  obtain ⟨old, hold, rfl⟩ := hm
  have hold := hstored old (hid ▸ hold)
  show f.Keeps (d'.metadata.orElse fun _ => old.metadata)
  rw [hmetadata]
  cases hdm : d.metadata with
  | none => simpa [hdm] using hold
  | some x => simpa [hdm] using hd

/-- After the first document was put, the others are kept as well. -/
lemma Keeping.tail {a : Address} {s s' : σ} {d m : Document} {rest : List Document}
    (hk : Keeping f a s (d :: rest)) (hid : m.id = d.id)
    (hm : ∀ r ∈ rest, r.id = d.id → f.Keeps m.metadata)
    (hself : Backend.document? a m.id s' = (f.document m).map some)
    (hother : ∀ id, id ≠ m.id → Backend.document? a id s' = Backend.document? a id s) :
    Keeping f a s' rest := by
  refine (List.pairwise_cons.mp hk).2.imp_of_mem fun {r r'} hr _ hkept hrr => ?_
  obtain ⟨hmetadata, hstored⟩ := hkept hrr
  refine ⟨hmetadata, fun old hold => ?_⟩
  by_cases hrm : r.id = m.id
  · have hkeeps := hm r hr (hrm.trans hid)
    rw [hrm, hself, Fidelity.document_of_keeps hkeeps] at hold
    cases hold
    exact hkeeps
  · exact hstored old ((hother r.id hrm).symm.trans hold)

/-- **One update at a time puts what one update puts of the documents with all they take from those
before them.** -/
theorem exec_updateEach (hR : Backend.Refinement R) (he : store.embedder.Separate e)
    {documents prepared : List Document}
    (hp : List.Forall₂ (fun d d' => Indexing.prepare e d = .ok d') documents prepared) :
    ∀ {w : World σ} {merged : List Document}, Sized R (store.address name) n w.backend →
      List.Forall₂ (Merged (store.address name) w.backend) (Document.carried prepared) merged →
      (∀ d ∈ prepared, Embedding.Fits (some n) d.embedding) →
      Keeping f (store.address name) w.backend documents →
      ((store.updateEach name documents).exec w).1 = .ok () ∧
      (Holdings.putAll (store.address name) merged).exec w.backend =
        (.ok (), ((store.updateEach name documents).exec w).2.backend) := by
  induction hp with
  | nil =>
    intro w merged _ hm _ _
    cases hm
    exact ⟨rfl, rfl⟩
  | @cons d d' rest rest' hd hrest ih =>
    intro w merged hs hm hfits hkeeping
    obtain ⟨m, ms, hmerged, hms, rfl⟩ := List.forall₂_cons_left_iff.mp hm
    obtain ⟨hfit, hfits⟩ := List.forall_mem_cons.mp hfits
    obtain ⟨s', hput, hs', hself, hother⟩ := hs.put hR m
    obtain ⟨q, -, hd'⟩ := Indexing.prepare_eq_ok_iff.mp hd
    have hid : d'.id = d.id := by rw [hd']
    have hmid : m.id = d.id := (Holdings.Merged.id_eq hmerged).trans hid
    have hkeeps := hkeeping.merged hid (by rw [hd']) hmerged
    have hputAll : ∀ ms, (Holdings.putAll (store.address name) (m :: ms)).exec w.backend =
        (Holdings.putAll (store.address name) ms).exec s' := by
      intro ms
      rw [Holdings.putAll, exec_bind, exec_write, hput]
    -- the first update puts the first document
    obtain ⟨hfirst, hbackend⟩ := exec_update_of_merged hR he hs (.cons hd .nil) (.cons hmerged .nil)
      (List.forall_mem_singleton.mpr hfit)
    rw [hputAll] at hfirst hbackend
    have hsplit : (store.updateEach name (d :: rest)).exec w =
        (store.updateEach name rest).exec ((store.update name [d]).exec w).2 := by
      have hexec : (store.update name [d]).exec w = (.ok (), ((store.update name [d]).exec w).2) :=
        Prod.ext hfirst rfl
      rw [updateEach, exec_bind, hexec]
    rw [hsplit, hputAll]
    generalize ((store.update name [d]).exec w).2 = w' at hbackend ⊢
    obtain rfl : w'.backend = s' := hbackend
    refine ih hs' ?_ hfits (hkeeping.tail hmid hkeeps hself hother)
    -- the others are merged with what it left
    rw [List.forall₂_map_left_iff] at hms
    refine ((List.forall₂_and_left _ _).mpr ⟨fun r hr hrd => ?_, hms⟩).imp fun r x hrx =>
      merged_of_put hmerged hself hother hrx.1 hrx.2
    obtain ⟨r', hr', hrid, -⟩ := Document.exists_of_mem_carried hr
    obtain ⟨r₀, hr₀, hprepare⟩ := exists_mem_of_forall₂ hrest.flip hr'
    obtain ⟨_, -, rfl⟩ := Indexing.prepare_eq_ok_iff.mp hprepare
    exact hkeeps r₀ hr₀ (hrid.trans (hrd.trans hid))

/-- Updating documents one at a time succeeds, and the backend is as after one update of the documents
with all they take from those before them. Where metadata is renewed, this is the update of the
documents themselves. -/
structure EachAsBatch (store : Store) (name : String) (documents : List Document) (w : World σ) :
    Prop where
  each : ((store.updateEach name documents).exec w).1 = .ok ()
  batch : ((store.update name (Document.carried documents)).exec w).1 = .ok ()
  backend : ((store.updateEach name documents).exec w).2.backend =
    ((store.update name (Document.carried documents)).exec w).2.backend
  renewing : Document.Renewing documents → ((store.updateEach name documents).exec w).2.backend =
    ((store.update name documents).exec w).2.backend

/-- An update of a batch that succeeds has found a dimension, the documents stored, and embeddings
that fit. -/
lemma exists_sized_of_update (hR : Backend.Refinement R) (he : store.embedder.Separate e)
    {w : World σ} {k : Catalog f} (hk : R w.backend k) (hindexed : k.Indexed) {d : Document}
    {rest : List Document} (hok : ((store.update name (d :: rest)).exec w).1 = .ok ()) :
    ∃ n prepared, Sized R (store.address name) n w.backend ∧
      List.Forall₂ (fun d d' => Indexing.prepare e d = .ok d') (d :: rest) prepared ∧
      (∀ d' ∈ prepared, ∃ old,
        Backend.document? (store.address name) d'.id w.backend = .ok (some old)) ∧
      ∀ d' ∈ prepared, Embedding.Fits (some n) d'.embedding := by
  obtain ⟨c, prepared, calls, hc, hembed⟩ := index_eq_ok hok
  unfold update at hok
  rw [exec_index hc hembed] at hok
  have hp : (d :: rest).mapM (Indexing.prepare e) = .ok prepared := by
    rw [← Indexing.embedMissing_eq he store.batchSize (d :: rest) w.calls, hembed]
  have hp := forall₂_of_mapM_eq_ok hp
  obtain ⟨merged, hmerged⟩ := Holdings.update_eq_ok hok
  have hstored : ∀ d' ∈ prepared, ∃ old,
      Backend.document? (store.address name) d'.id w.backend = .ok (some old) := by
    intro d' hd'
    obtain ⟨m, -, old, hold, -⟩ := exists_mem_of_forall₂ hmerged hd'
    exact ⟨old, hold⟩
  -- the check of the batch
  rw [Holdings.exec_update hmerged] at hok
  obtain ⟨_, hsettle, -⟩ := exec_bind_eq_ok.mp hok
  obtain ⟨found, hfound, -⟩ := exec_bind_eq_ok.mp hsettle
  have hfound : Holdings.commonDimension c.dimension merged = .ok found := hfound
  obtain ⟨hfits, hkeep⟩ := Holdings.commonDimension_fits hfound
  obtain ⟨h, c', hh, hread, hcc⟩ := Catalog.shown_iff_read.mp ((shown_iff hR hk).mp hc)
  have hdim : c.dimension = h.descriptor.dimension := by
    rw [hcc, ← Fidelity.dimension_of_collection hread]
  obtain ⟨n, hn⟩ : ∃ n, h.descriptor.dimension = some n := by
    obtain ⟨d', -, old, hold⟩ : ∃ d' ∈ prepared, ∃ old,
        Backend.document? (store.address name) d'.id w.backend = .ok (some old) := by
      obtain ⟨d', hd', -⟩ := exists_mem_of_forall₂ hp (List.mem_cons_self ..)
      exact ⟨d', hd', hstored d' hd'⟩
    rw [hR.document? _ hk trivial] at hold
    exact hindexed.exists_dimension hh hold
  refine ⟨n, prepared, ⟨k, h, c', hk, hh, hread, hn⟩, hp, hstored, fun d' hd' => ?_⟩
  obtain ⟨m, hm, hdm⟩ := exists_mem_of_forall₂ hmerged hd'
  rw [← Holdings.Merged.embedding_eq hdm, ← hkeep n (hdim.trans hn)]
  exact hfits m hm

theorem eachAsBatch_of_refinement (hR : Backend.Refinement R) (he : store.embedder.Separate e)
    {w : World σ} {k : Catalog f} (hk : R w.backend k) (hindexed : k.Indexed)
    {documents : List Document} (hok : ((store.update name documents).exec w).1 = .ok ())
    (hkeeping : Keeping f (store.address name) w.backend documents) :
    EachAsBatch store name documents w := by
  have hbatch : ((store.updateEach name documents).exec w).1 = .ok () ∧
      ((store.update name (Document.carried documents)).exec w).1 = .ok () ∧
      ((store.updateEach name documents).exec w).2.backend =
        ((store.update name (Document.carried documents)).exec w).2.backend := by
    cases documents with
    | nil =>
      obtain ⟨c, prepared, calls, hc, hembed⟩ := index_eq_ok hok
      have hnil : prepared = [] := by
        simpa using Indexing.map_bare_embedMissing (congrArg Prod.fst hembed)
      refine ⟨rfl, hok, ?_⟩
      unfold update
      rw [Document.carried, exec_index hc hembed, hnil]
      rfl
    | cons d rest =>
      obtain ⟨n, prepared, hs, hp, hstored, hfits⟩ := exists_sized_of_update hR he hk hindexed hok
      have hcarried := Indexing.prepare_carried hp
      have hstoredCarried : ∀ r ∈ Document.carried prepared, ∃ old,
          Backend.document? (store.address name) r.id w.backend = .ok (some old) := by
        intro r hr
        obtain ⟨d', hd', hid, -⟩ := Document.exists_of_mem_carried hr
        exact hid ▸ hstored d' hd'
      have hfitsCarried : ∀ r ∈ Document.carried prepared,
          Embedding.Fits (some n) r.embedding := by
        intro r hr
        obtain ⟨d', hd', -, hembedding⟩ := Document.exists_of_mem_carried hr
        exact hembedding ▸ hfits d' hd'
      obtain ⟨merged, hmerged⟩ := Holdings.exists_merged hstoredCarried
      obtain ⟨hreply, hbackend⟩ := exec_update_of_merged hR he hs hcarried hmerged hfitsCarried
      obtain ⟨heach, hput⟩ := exec_updateEach hR he hp hs hmerged hfits hkeeping
      rw [hput] at hreply hbackend
      exact ⟨heach, hreply, hbackend.symm⟩
  obtain ⟨heach, hreply, hbackend⟩ := hbatch
  refine ⟨heach, hreply, hbackend, fun hrenewing => ?_⟩
  rw [Document.carried_of_renewing hrenewing] at hbackend
  exact hbackend

end Update

/-- **Wherever calls lead to on memory or on tables, if the update of a batch succeeds then its
documents can be updated one at a time.** The outcome is that of a batch in which each document that
brings no metadata has that of the last document before it with its id. So it is that of the batch
itself, unless such a document takes metadata from the batch.

On tables, what is stored for an id that comes again has to be read as it was written. -/
theorem updateEach_eq_update {e : String → Except Fault Embedding} (store : Store) (name : String)
    (documents : List Document) (he : store.embedder.Separate e) :
    (∀ w : World Memory, Reachable Memory.empty w →
      ((store.update name documents).exec w).1 = .ok () → EachAsBatch store name documents w) ∧
    ∀ w : World Tables, Reachable Tables.empty w →
      ((store.update name documents).exec w).1 = .ok () →
      (documents.Pairwise fun d e => e.id = d.id → Body.Stable d.metadata ∧
        ∀ old, Backend.document? (store.address name) d.id w.backend = .ok (some old) →
          Body.Stable old.metadata) →
      EachAsBatch store name documents w := by
  constructor
  · intro w hw hok
    obtain ⟨v, hv, hrel, -⟩ := hw.related Memory.refinement Memory.shows_empty
    refine eachAsBatch_of_refinement Memory.refinement he hrel hv.indexed hok ?_
    exact List.pairwise_of_forall_mem_list fun _ _ _ _ _ => ⟨trivial, fun _ _ => trivial⟩
  · intro w hw hok hstable
    obtain ⟨v, hv, hrel, -⟩ := hw.related Tables.refinement Tables.shows_empty
    exact eachAsBatch_of_refinement Tables.refinement he hrel hv.indexed hok hstable

/-- One document is stored. -/
def fox : List Call :=
  [⟨hashing, instant 0, .create "animals" false false⟩,
    ⟨hashing, instant 1, .insert "animals" false [⟨"1", "a fox", none, none⟩]⟩]

/-- A batch that brings metadata for the document, and none when its id comes again. -/
def pinned : List Document :=
  [⟨"1", "the fox", some [("pinned", .bool true)], none⟩, ⟨"1", "a wolf", none, none⟩]

/-- The update of the batch and the updates of its documents succeed, but the metadata only stays
with the latter. -/
theorem update_forgets_pinned :
    ((hashing.update "animals" pinned).exec (reached fox Memory.empty)).1 = .ok () ∧
    ((hashing.updateEach "animals" pinned).exec (reached fox Memory.empty)).1 = .ok () ∧
    ((hashing.updateEach "animals" pinned).exec (reached fox Memory.empty)).2.backend ≠
      ((hashing.update "animals" pinned).exec (reached fox Memory.empty)).2.backend := by
  refine ⟨by decide +kernel, by decide +kernel, fun h => ?_⟩
  have hread := congrArg (fun m => (Backend.document? (hashing.address "animals") "1" m).map
    (Option.map (·.metadata.isSome))) h
  exact absurd hread (by decide +kernel)

/-- The batch is updated one by one, on memory and on tables. -/
theorem updateEach_eq_update_pinned :
    EachAsBatch hashing "animals" pinned (reached fox Memory.empty) ∧
    EachAsBatch hashing "animals" pinned (reached fox Tables.empty) := by
  obtain ⟨memory, tables⟩ := updateEach_eq_update hashing "animals" pinned
    (Trigram.separate_embedder 2 true)
  refine ⟨memory _ (reachable_reached ..) (by decide +kernel),
    tables _ (reachable_reached ..) (by decide +kernel) ?_⟩
  have hstable : Body.Stable (some [("pinned", .bool true)]) := by
    refine Body.stable_of_plain ⟨?_, ?_⟩ ?_
    · rintro m ⟨⟩
      exact .object (List.pairwise_singleton ..) (List.forall_mem_singleton.mpr (.bool _))
    · rintro m ⟨⟩
      exact .object (List.forall_mem_singleton.mpr (.bool _))
    · rintro m ⟨⟩
      decide
  have hnone : (Backend.document? (hashing.address "animals") "1"
      (reached fox Tables.empty).backend).map (Option.map (·.metadata.isSome)) =
      .ok (some false) := by
    decide +kernel
  refine List.pairwise_pair.mpr fun _ => ⟨hstable, fun old hold => ?_⟩
  have hold : Backend.document? (hashing.address "animals") "1"
      (reached fox Tables.empty).backend = .ok (some old) := hold
  rw [hold] at hnone
  have hmetadata : old.metadata = none := by simpa [Except.map] using hnone
  rw [hmetadata]
  exact Body.stable_none

end Store

end SemanticStore
