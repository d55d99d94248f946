import SemanticStore.Proofs.SelfDistance
import SemanticStore.Proofs.Store.Histories
import SemanticStore.Proofs.Store.Preparation

/-!
# A text finds itself

A document that was stored with the trigram embedding of its content is at distance zero from its
content as a query, for as long as nothing rewrites it (`Store.retrieve_self`).

* `Store.Call.stores_find?`: what a batch leaves of a document that it embeds.
* `Store.document_afterAll`: a document stays as it is along calls that do not rewrite it.
* `Ranking.rank_self`: what a ranking makes of it.
-/

namespace SemanticStore.Store

open SemanticStore.Action

/-! ### Documents that stay -/

/-- The ids of the documents that a request works on. -/
def Request.ids : Request → List String
  | .insert _ _ documents => documents.map (·.id)
  | .update _ documents => documents.map (·.id)
  | .delete _ ids => ids
  | _ => []

/-- The call has overwritten or taken away the document with an id, or its collection. -/
def Call.rewrites (a : Address) (id : String) (c : Call) (reply : Except Fault Reply) : Bool :=
  c.removes a reply ||
    ((fault? reply).isNone && c.target? = some a && c.request.ids.contains id)

/-- A call stores a document that brings no embedding, as the last one of its batch with its id. -/
structure Call.Stores {σ : Type} [Backend σ] (c : Call) (a : Address) (d : Document) (w : World σ) :
    Prop where
  batch : ∃ name init tail,
    (c.request = .update name (init ++ d :: tail) ∨
      ∃ replacing, c.request = .insert name replacing (init ++ d :: tail)) ∧
    c.store.address name = a ∧ d.id ∉ tail.map (·.id)
  bare : d.embedding = none
  succeeds : fault? (c.perform.exec w).1 = none

section Catalog

variable {f : Fidelity} {c : Call} {a : Address} {w : World (Catalog f)} {h : Holding}
  {d stored : Document} {id : String}

theorem Call.document_after (hh : Keyed.find? a w.backend.holdings = some h)
    (hd : Documents.find? id h.documents = some stored)
    (hkept : c.rewrites a id (c.perform.exec w).1 = false) :
    ∃ h', Keyed.find? a (c.after w).backend.holdings = some h' ∧
      Documents.find? id h'.documents = some stored := by
  obtain ⟨hremoves, hids⟩ := Bool.or_eq_false_iff.mp hkept
  by_cases ha : c.target? = some a
  · cases hok : (c.perform.exec w).1 with
    | error e =>
      rw [Call.backend_of_error hok]
      exact ⟨h, hh, hd⟩
    | ok r =>
      have hid : id ∉ c.request.ids := by simpa [hok, ha, fault?] using hids
      have heffect := Call.effect ha hok
      generalize (c.after w).backend = k at heffect ⊢
      cases heffect with
      | kept hr hh' => exact ⟨h, hh, hd⟩
      | created hr hnew =>
        rcases hnew with hnew | rfl
        · rw [hh] at hnew
          cases hnew
        · simp [Call.removes, hok, ha, hr, fault?] at hremoves
      | dropped hr => simp [Call.removes, hok, ha, hr, fault?] at hremoves
      | @inserted _ _ _ prepared _ _ hr hh' hp hw =>
        obtain rfl := Option.some.inj (hh.symm.trans hh')
        refine ⟨_, Catalog.find?_store_self .., ?_⟩
        rw [hw.documents, Documents.find?_putAll_of_notMem, hd]
        rw [Document.ids_of_map_bare (Indexing.map_bare_embedMissing hp)]
        simpa [hr, Request.ids] using hid
      | @updated _ _ _ merged _ _ hr hh' hp hm hw =>
        obtain rfl := Option.some.inj (hh.symm.trans hh')
        refine ⟨_, Catalog.find?_store_self .., ?_⟩
        rw [hw.documents, Documents.find?_putAll_of_notMem, hd]
        rw [Holdings.ids_of_merged hm, Document.ids_of_map_bare (Indexing.map_bare_embedMissing hp)]
        simpa [hr, Request.ids] using hid
      | deleted hr hh' =>
        obtain rfl := Option.some.inj (hh.symm.trans hh')
        refine ⟨_, Catalog.find?_store_self .., ?_⟩
        rw [Documents.find?_eraseAll_of_notMem (by simpa [hr, Request.ids] using hid), hd]
  · rw [Call.frame ha]
    exact ⟨h, hh, hd⟩

/-- What a batch leaves of a document that brings no embedding: it has that of its content. -/
theorem Call.stores_find? {e : String → Except Fault Embedding} (he : c.store.embedder.Separate e)
    (hs : c.Stores a d w) :
    ∃ h stored q, Keyed.find? a (c.after w).backend.holdings = some h ∧
      Documents.find? d.id h.documents = some stored ∧
      e d.content = .ok q ∧ stored.embedding = some q := by
  obtain ⟨⟨name, init, tail, hrequest, rfl, htail⟩, hbare, hsucceeds⟩ := hs
  have ha : c.target? = some (c.store.address name) := by
    rcases hrequest with hr | ⟨replacing, hr⟩ <;> simp [Call.target?, hr, Request.written?]
  -- the prepared batch is cut where the batch is
  have hcut : ∀ {prepared : List Document},
      ((Indexing.embedMissing c.store.embedder c.store.batchSize (init ++ d :: tail)).exec
        w.calls).1 = .ok prepared →
      ∃ before d' after q, prepared = before ++ d' :: after ∧ d'.id = d.id ∧
        e d.content = .ok q ∧ d'.embedding = some q ∧ d.id ∉ after.map (·.id) := by
    intro prepared hp
    rw [Indexing.embedMissing_eq he] at hp
    obtain ⟨before, d', after, rfl, hd', hafter⟩ :=
      exists_of_forall₂_append (forall₂_of_mapM_eq_ok hp)
    obtain ⟨q, hq, rfl⟩ := Indexing.prepare_eq_ok_iff.mp hd'
    have hq : e d.content = .ok q := by simpa [hbare] using hq
    exact ⟨before, _, after, q, rfl, rfl, hq, rfl, (Indexing.ids_of_prepare hafter).symm ▸ htail⟩
  cases hok : (c.perform.exec w).1 with
  | error fault =>
    rw [hok] at hsucceeds
    cases hsucceeds
  | ok r =>
    have heffect := Call.effect ha hok
    generalize (c.after w).backend = k at heffect ⊢
    cases heffect with
    | kept hr' | created hr' | dropped hr' | deleted hr' => simp [hr'] at hrequest
    | inserted hr' hh hp hw =>
      obtain ⟨-, rfl⟩ : _ ∧ _ = init ++ d :: tail := by simpa [hr'] using hrequest
      obtain ⟨before, d', after, q, rfl, hid, hq, hembedding, hafter⟩ := hcut hp
      refine ⟨_, d', q, Catalog.find?_store_self .., ?_, hq, hembedding⟩
      rw [hw.documents, ← hid, Documents.find?_putAll (hid ▸ hafter)]
    | updated hr' hh hp hm hw =>
      obtain ⟨-, rfl⟩ : _ ∧ _ = init ++ d :: tail := by simpa [hr'] using hrequest
      obtain ⟨before, d', after, q, rfl, hid, hq, hembedding, hafter⟩ := hcut hp
      obtain ⟨before', m, after', rfl, hmerged, hafter'⟩ := exists_of_forall₂_append hm
      have hid := (Holdings.Merged.id_eq hmerged).trans hid
      refine ⟨_, m, q, Catalog.find?_store_self .., ?_, hq, (Holdings.Merged.embedding_eq hmerged).trans hembedding⟩
      rw [hw.documents, ← hid, Documents.find?_putAll]
      rw [Holdings.ids_of_merged hafter', hid]
      exact hafter

/-- A document stays along calls that do not rewrite it. -/
theorem document_afterAll (since : List Call) :
    ∀ {w : World (Catalog f)} {h : Holding}, Keyed.find? a w.backend.holdings = some h →
      Documents.find? id h.documents = some stored →
      List.Forall₂ (fun c r => c.rewrites a id r = false) since (replies since w) →
      ∃ h', Keyed.find? a (afterAll since w).backend.holdings = some h' ∧
        Documents.find? id h'.documents = some stored := by
  induction since with
  | nil => exact fun hh hd _ => ⟨_, hh, hd⟩
  | cons c rest ih =>
    intro w h hh hd hkept
    obtain ⟨hc, hrest⟩ := List.forall₂_cons.mp hkept
    obtain ⟨h', hh', hd'⟩ := Call.document_after hh hd hc
    exact ih hh' hd' hrest

end Catalog

/-! ### Retrieval -/

section Retrieval

variable {σ τ : Type} [Backend σ] [Backend τ] {before since : List Call} {written : Call}
  {a : Address} {d : Document} {q : Embedding} {name : String} {queries : List String}
  {limit : Option ℕ} {threshold : Option Scalar} {lists : List (List Hit)}

/-- After some calls a call stores a document, and the calls since then do not rewrite it. -/
structure Stays (before : List Call) (written : Call) (since : List Call) (a : Address)
    (d : Document) (s : σ) : Prop where
  stores : written.Stores a d (reached before s)
  kept : List.Forall₂ (fun c r => c.rewrites a d.id r = false) since
    (replies since (written.after (reached before s)))

/-- The hits for a query with the embedding `q` find a document that has this embedding: it is at
distance zero, and no others are ahead of it than documents at distance zero that come before it in
the order of the catalog `k`. This is so if the list has room for all documents, or for those and one
more, and the threshold, if there is one, is not below zero. -/
def Finds {f : Fidelity} (store : Store) (name : String) (d : Document) (q : Embedding) (limit : ℕ)
    (threshold : Option Scalar) (w : World σ) (k : Catalog f) (hits : List Hit) : Prop :=
  ∃ c h earlier stored later,
    Backend.collection? (store.address name) w.backend = .ok (some c) ∧
    Backend.documents (store.address name) w.backend = .ok (earlier ++ stored :: later) ∧
    Keyed.find? (store.address name) k.holdings = some h ∧
    (earlier ++ stored :: later).map (·.id) = h.documents.map (·.id) ∧
    stored.id = d.id ∧ stored.embedding = some q ∧
    ((earlier ++ stored :: later).length ≤ limit ∨
        (Ranking.matching c.metric q earlier).length < limit →
      (∀ t, threshold = some t → Scalar.zero.le t = true) →
      ∃ ahead behind, hits = ahead ++ (stored, .zero) :: behind ∧
        ∀ g ∈ ahead, g ∈ Ranking.matching c.metric q earlier)

lemma Stays.related {R : σ → τ → Prop} (hR : Backend.Refinement R) {s : σ} {t : τ} (hst : R s t)
    (h : Stays before written since a d s) : Stays before written since a d t := by
  have hbefore := related_reached hR hst before
  obtain ⟨⟨hbatch, hbare, hsucceeds⟩, hkept⟩ := h
  rw [perform_eq hR hbefore] at hsucceeds
  rw [replies_eq hR since (after_related hR hbefore written)] at hkept
  exact ⟨⟨hbatch, hbare, hsucceeds⟩, hkept⟩

lemma reached_append_cons {s : σ} :
    reached (before ++ written :: since) s = afterAll since (written.after (reached before s)) :=
  afterAll_append before (written :: since) (.opened s)

/-- Retrieval on a backend that refines a catalog. -/
theorem finds_of_stays {f : Fidelity} {R : σ → Catalog f → Prop} (hR : Backend.Refinement R)
    {s : σ} (hs : R s (.empty f)) {e : String → Except Fault Embedding}
    (he : written.store.embedder.Separate e) (hq : e d.content = .ok q) (hne : q ≠ [])
    (hstays : Stays before written since (written.store.address name) d s)
    (hok : ((written.store.retrieve name queries limit threshold).exec
      (reached (before ++ written :: since) s)).1 = .ok lists)
    {i : ℕ} (hi : queries[i]? = some d.content) :
    ∃ hits, lists[i]? = some hits ∧
      Finds written.store name d q (limit.getD written.store.limit) threshold
        (reached (before ++ written :: since) s)
        (reached (before ++ written :: since) (Catalog.empty f)).backend hits := by
  -- the document is in the catalog
  obtain ⟨hstores, hkept⟩ := hstays.related hR hs
  obtain ⟨_, kept, q', hh, hfind, hq', hembedding⟩ := Call.stores_find? he hstores
  obtain rfl : q = q' := Except.ok.inj (hq.symm.trans hq')
  obtain ⟨h, hh, hfind⟩ := document_afterAll since hh hfind hkept
  rw [← reached_append_cons] at hh
  -- so it is among the documents that are searched
  obtain ⟨c, documents, embeddings, hc, hdocs, hread, ⟨⟨h', hh', hids⟩, hnodup, hfits⟩, hembed,
    hembedded, rfl⟩ := searched_of_retrieve hR hs (before ++ written :: since) hok
  obtain rfl := Option.some.inj (hh.symm.trans hh')
  obtain ⟨earlier, stored, later, rfl, hid, hstored⟩ := Catalog.exists_read hread hh hfind
  rw [hembedding] at hstored
  have hqi : embeddings[i]? = some q := Indexing.getElem?_of_embedQueries he hembed hi hq
  have hqfinite : q.isFinite = true := by
    obtain ⟨e', he', hfinite, -⟩ := hfits stored (by simp)
    rw [hstored] at he'
    exact Option.some.inj he' ▸ hfinite
  refine ⟨_, by rw [List.getElem?_map, hqi]; rfl, c, h, earlier, stored, later, hc, hdocs, hh, hids,
    hid, hstored, fun hlimit hthreshold => ?_⟩
  refine Ranking.rank_self hne hqfinite hnodup (hembedded q (List.mem_of_getElem? hqi)) hstored ?_
    hthreshold
  have hmatching : (Ranking.matching c.metric q earlier).length ≤ earlier.length :=
    (List.length_filter_le ..).trans (List.length_filterMap_le ..)
  rcases hlimit with hlimit | hlimit
  · rw [List.length_append, List.length_cons] at hlimit
    omega
  · exact hlimit

/-- **Wherever calls lead to on memory or on tables, a document that was stored with the trigram
embedding of its content, and not rewritten since, is found by its content**: a retrieval that
succeeds has it at distance zero, behind none but earlier documents at distance zero, as soon as the
list has a place for it. -/
theorem retrieve_self (dimensions : ℕ) (normalized : Bool) (before since : List Call)
    (written : Call) (name : String) (d : Document) (queries : List String) (limit : Option ℕ)
    (threshold : Option Scalar) (lists : List (List Hit)) (i : ℕ)
    (hembedder : written.store.embedder = Trigram.embedder dimensions normalized)
    (hdimensions : 0 < dimensions) (hi : queries[i]? = some d.content) :
    (Stays before written since (written.store.address name) d Memory.empty →
      ((written.store.retrieve name queries limit threshold).exec
        (reached (before ++ written :: since) Memory.empty)).1 = .ok lists →
      ∃ hits, lists[i]? = some hits ∧
        Finds written.store name d (Trigram.embed dimensions normalized d.content)
          (limit.getD written.store.limit) threshold
          (reached (before ++ written :: since) Memory.empty)
          (reached (before ++ written :: since) (Catalog.empty .exact)).backend hits) ∧
    (Stays before written since (written.store.address name) d Tables.empty →
      ((written.store.retrieve name queries limit threshold).exec
        (reached (before ++ written :: since) Tables.empty)).1 = .ok lists →
      ∃ hits, lists[i]? = some hits ∧
        Finds written.store name d (Trigram.embed dimensions normalized d.content)
          (limit.getD written.store.limit) threshold
          (reached (before ++ written :: since) Tables.empty)
          (reached (before ++ written :: since) (Catalog.empty .textual)).backend hits) := by
  have hseparate : written.store.embedder.Separate
      fun text => .ok (Trigram.embed dimensions normalized text) :=
    hembedder ▸ Trigram.separate_embedder dimensions normalized
  have hne : Trigram.embed dimensions normalized d.content ≠ [] := by
    rw [← List.length_pos_iff, Trigram.length_embed]
    exact hdimensions
  exact ⟨fun hstays hok =>
      finds_of_stays Memory.refinement Memory.shows_empty hseparate rfl hne hstays hok hi,
    fun hstays hok =>
      finds_of_stays Tables.refinement Tables.shows_empty hseparate rfl hne hstays hok hi⟩

end Retrieval

/-- Two documents, of which the second one gets the content of the first. -/
def twins : List Call :=
  [⟨hashing, instant 0, .create "animals" false false⟩,
    ⟨hashing, instant 1, .insert "animals" false
      [⟨"1", "a fox", none, none⟩, ⟨"2", "a wolf", none, none⟩]⟩]

/-- The content of the second document is replaced. -/
def rewriting : Call := ⟨hashing, instant 2, .update "animals" [⟨"2", "a fox", none, none⟩]⟩

/-- A third document is stored, and taken out again. -/
def passing : List Call :=
  [⟨hashing, instant 3, .insert "animals" false [⟨"3", "a dog", none, none⟩]⟩,
    ⟨hashing, instant 4, .delete "animals" ["3"]⟩]

/-- The second document is found by its new content, with the first one ahead of it. -/
theorem retrieve_self_twins :
    (∃ lists hits, ((hashing.retrieve "animals" ["hound", "a fox"] (some 2) none).exec
        (reached (twins ++ rewriting :: passing) Memory.empty)).1 = .ok lists ∧
      lists[1]? = some hits ∧
      Finds hashing "animals" ⟨"2", "a fox", none, none⟩ (Trigram.embed 2 true "a fox") 2 none
        (reached (twins ++ rewriting :: passing) Memory.empty)
        (reached (twins ++ rewriting :: passing) (Catalog.empty .exact)).backend hits) ∧
    ∃ lists hits, ((hashing.retrieve "animals" ["hound", "a fox"] (some 2) none).exec
        (reached (twins ++ rewriting :: passing) Tables.empty)).1 = .ok lists ∧
      lists[1]? = some hits ∧
      Finds hashing "animals" ⟨"2", "a fox", none, none⟩ (Trigram.embed 2 true "a fox") 2 none
        (reached (twins ++ rewriting :: passing) Tables.empty)
        (reached (twins ++ rewriting :: passing) (Catalog.empty .textual)).backend hits := by
  have hself := fun lists => retrieve_self 2 true twins passing rewriting "animals"
    ⟨"2", "a fox", none, none⟩ ["hound", "a fox"] (some 2) none lists 1 rfl (by decide) rfl
  constructor
  · have hok : (((hashing.retrieve "animals" ["hound", "a fox"] (some 2) none).exec
        (reached (twins ++ rewriting :: passing) Memory.empty)).1.map List.length) = .ok 2 := by
      decide +kernel
    obtain ⟨lists, hlists, -⟩ := exists_of_map_eq_ok hok
    obtain ⟨hits, hhits, hfinds⟩ := (hself lists).1 ⟨⟨⟨"animals", [], [], .inl rfl, rfl, by simp⟩,
      rfl, by decide +kernel⟩, by decide +kernel⟩ hlists
    exact ⟨lists, hits, hlists, hhits, hfinds⟩
  · -- the rows of a table are sorted to be read, so the reply is evaluated on the catalog
    have hreply := retrieve_reached_eq Tables.refinement Tables.shows_empty
      (twins ++ rewriting :: passing) hashing "animals" ["hound", "a fox"] (some 2) none
    have hok : (((hashing.retrieve "animals" ["hound", "a fox"] (some 2) none).exec
        (reached (twins ++ rewriting :: passing) (Catalog.empty .textual))).1.map List.length) =
        .ok 2 := by
      decide +kernel
    rw [← hreply] at hok
    obtain ⟨lists, hlists, -⟩ := exists_of_map_eq_ok hok
    obtain ⟨hits, hhits, hfinds⟩ := (hself lists).2 ⟨⟨⟨"animals", [], [], .inl rfl, rfl, by simp⟩,
      rfl, by decide +kernel⟩, by decide +kernel⟩ hlists
    exact ⟨lists, hits, hlists, hhits, hfinds⟩

end SemanticStore.Store
