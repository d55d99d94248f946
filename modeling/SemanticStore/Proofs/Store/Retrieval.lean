import SemanticStore.Proofs.Ranking
import SemanticStore.Proofs.Store.Indexed

/-!
# Retrieval finds the nearest documents

A retrieval without a threshold that succeeds gives one list for each query, and the list is the
ranking of all stored documents by their distance to the embedding of the query
(`Store.retrieve_nearest`).

* `Indexing.embedQueries_eq_ok_iff`: the embeddings of queries are those that the embedder answers.
* `Store.retrieve_eq_ok`: what a retrieval that succeeds has read and how it made its lists.
* `Catalog.Searchable`: no document of a collection is there twice, and each has an embedding of the
  dimension of the collection; every world that calls lead to is of this kind.
* `Store.searched_of_retrieve`: both together, for a backend that refines a catalog.
-/

namespace SemanticStore

open SemanticStore.Action

variable {σ τ : Type} [Backend σ] [Backend τ]

/-! ### What a retrieval reads -/

namespace Holdings

variable {c : Collection} {a : Address} {queries : List Embedding}

lemma length_of_checkQueries (h : checkQueries c queries = .ok ()) {n : ℕ}
    (hn : c.dimension = some n) : ∀ q ∈ queries, q.length = n := by
  unfold checkQueries at h
  rw [hn] at h
  cases hfind : queries.find? fun q => q.length ≠ n with
  | some q =>
    rw [Option.bind_some, hfind] at h
    cases h
  | none =>
    intro q hq
    simpa using List.find?_eq_none.mp hfind q hq

lemma retrieve_eq_ok {limit : ℕ} {threshold : Option Scalar} {s : σ} {lists : List (List Hit)}
    (h : ((retrieve a c queries limit threshold).exec s).1 = .ok lists) :
    ∃ documents, checkQueries c queries = .ok () ∧ Backend.documents a s = .ok documents ∧
      lists = queries.map fun q => Ranking.rank c.metric q limit threshold documents := by
  obtain ⟨⟨⟩, hcheck, h⟩ := exec_bind_eq_ok.mp h
  obtain ⟨documents, hread, h⟩ := exec_bind_eq_ok.mp h
  exact ⟨documents, hcheck, hread, (Except.ok.inj h).symm⟩

end Holdings

/-- **Queries are embedded just if the embedder answers them**, all in one call, with as many
embeddings. No queries need no call. -/
theorem Indexing.embedQueries_eq_ok_iff {e : Embedder} {queries : List String} {calls : Calls}
    {found : List Embedding} : ((embedQueries e queries).exec calls).1 = .ok found ↔
      (queries ≠ [] → e.answer calls queries = .ok found) ∧ found.length = queries.length := by
  unfold embedQueries
  cases queries with
  | nil =>
    constructor
    · rintro ⟨⟩
      exact ⟨fun h => absurd rfl h, rfl⟩
    · rintro ⟨-, hlength⟩
      obtain rfl := List.eq_nil_of_length_eq_zero hlength
      rfl
  | cons query rest =>
    have hcall : (e.call (query :: rest)).exec calls =
        (e.answer calls (query :: rest), calls ++ [query :: rest]) := rfl
    simp only [List.isEmpty_cons, Bool.false_eq_true, if_false, ne_eq, List.cons_ne_nil,
      not_false_eq_true, forall_const]
    rw [exec_bind, hcall]
    cases e.answer calls (query :: rest) with
    | error fault => simp
    | ok answer =>
      dsimp only
      split
      · rename_i hlength
        constructor
        · rintro ⟨⟩
          exact ⟨rfl, hlength⟩
        · rintro ⟨⟨⟩, -⟩
          rfl
      · rename_i hlength
        constructor
        · rintro ⟨⟩
        · rintro ⟨⟨⟩, heq⟩
          exact absurd heq hlength

namespace Store

variable {store : Store} {name : String} {queries : List String} {limit : Option ℕ}
  {threshold : Option Scalar} {lists : List (List Hit)}

lemma exec_find (store : Store) (name : String) (w : World σ) :
    ((World.onBackend (store.find name)).exec w).2 = w ∧
      ∀ c, ((World.onBackend (store.find name)).exec w).1 = .ok c →
        Shown (store.address name) c w.backend := by
  unfold World.onBackend find Shown
  rw [exec_within, exec_bind, exec_read]
  cases hc : Backend.collection? (store.address name) w.backend with
  | error e => exact ⟨rfl, fun c h => by cases h⟩
  | ok found =>
    cases found with
    | none => exact ⟨rfl, fun c h => by cases h⟩
    | some c => exact ⟨rfl, fun c' h => by cases h; rfl⟩

/-- **A retrieval that succeeds ranks the documents of its collection for each query.** -/
theorem retrieve_eq_ok {w : World σ}
    (h : ((store.retrieve name queries limit threshold).exec w).1 = .ok lists) :
    ∃ c documents embeddings, Shown (store.address name) c w.backend ∧
      Backend.documents (store.address name) w.backend = .ok documents ∧
      ((Indexing.embedQueries store.embedder queries).exec w.calls).1 = .ok embeddings ∧
      Holdings.checkQueries c embeddings = .ok () ∧
      lists = embeddings.map fun q =>
        Ranking.rank c.metric q (limit.getD store.limit) threshold documents := by
  obtain ⟨_, -, h⟩ := exec_bind_eq_ok.mp h
  rw [(exec_find store name w).1] at h
  obtain ⟨embeddings, hembed, h⟩ := exec_bind_eq_ok.mp h
  obtain ⟨_, -, h⟩ := exec_bind_eq_ok.mp h
  obtain ⟨c, hfind, h⟩ := exec_bind_eq_ok.mp h
  rw [(exec_find store name _).1] at h
  obtain ⟨documents, hcheck, hdocs, rfl⟩ := Holdings.retrieve_eq_ok (s := w.backend) h
  exact ⟨c, documents, embeddings, (exec_find store name _).2 c hfind, hdocs, hembed, hcheck, rfl⟩

end Store

/-! ### Collections that can be searched -/

lemma Fidelity.document_eq_ok {f : Fidelity} {d e : Document} (h : f.document d = .ok e) :
    e.id = d.id ∧ e.embedding = d.embedding := by
  cases f with
  | exact =>
    cases h
    exact ⟨rfl, rfl⟩
  | textual =>
    unfold document Body.decode at h
    dsimp only at h
    split at h
    · cases h
      exact ⟨rfl, rfl⟩
    · cases h

namespace Catalog

variable {f : Fidelity} {k : Catalog f} {a : Address} {c : Collection} {documents : List Document}

lemma documents_eq_ok (h : Backend.documents a k = .ok documents) :
    ∃ h, Keyed.find? a k.holdings = some h ∧
      List.Forall₂ (fun d e => f.document d = .ok e) h.documents documents := by
  have h : (holding a k >>= fun h => h.documents.mapM f.document) = .ok documents := h
  unfold holding at h
  cases hh : Keyed.find? a k.holdings with
  | none =>
    rw [hh] at h
    cases h
  | some h' =>
    rw [hh] at h
    exact ⟨h', rfl, forall₂_of_mapM_eq_ok h⟩

lemma preserves_sound (a : Address) : Store.Preserves a (Sound (f := f)) where
  create {c k k'} hk h := by
    have h : Catalog.create a c k = .ok k' := h
    unfold Catalog.create at h
    split at h
    · cases h
    · rename_i hn
      cases h
      exact sound_create hk (Keyed.contains_eq_false.mp (eq_false_of_ne_true hn)) c
  redescribe hk h := by
    obtain ⟨h₁, hh₁, rfl⟩ := holding_map_eq_ok.mp h
    exact sound_store hk (hk.ids_of_find? (h := h₁) hh₁)
  drop hk h := by
    cases h
    exact sound_erase hk a
  put hk h := by
    obtain ⟨h₁, hh₁, rfl⟩ := holding_map_eq_ok.mp h
    exact sound_store hk (Documents.nodup_put (hk.ids_of_find? hh₁))
  remove hk h := by
    obtain ⟨h₁, hh₁, heq⟩ := holding_map_eq_ok.mp h
    cases heq
    exact sound_store hk (Documents.nodup_erase (hk.ids_of_find? hh₁))

/-- A collection that holds no document twice and only embeddings of its dimension. -/
structure Searchable (a : Address) (k : Catalog f) (c : Collection) (documents : List Document) :
    Prop where
  /-- the documents are read in the order in which the catalog holds them -/
  inserted : ∃ h, Keyed.find? a k.holdings = some h ∧
    documents.map (·.id) = h.documents.map (·.id)
  ids : (documents.map (·.id)).Nodup
  fits : ∀ d ∈ documents, Embedding.Fits c.dimension d.embedding

theorem searchable (hk : k.Sound) (hindexed : k.Indexed)
    (hc : Backend.collection? a k = .ok (some c)) (hdocs : Backend.documents a k = .ok documents) :
    Searchable a k c documents := by
  obtain ⟨h, hh, hdim⟩ := exists_of_collection? hc
  obtain ⟨h', hh', hread⟩ := documents_eq_ok hdocs
  obtain rfl := Option.some.inj (hh.symm.trans hh')
  have hkept := hread.imp fun _ _ hde => Fidelity.document_eq_ok hde
  have hids : documents.map (·.id) = h.documents.map (·.id) :=
    Documents.ids_of_forall₂ hkept fun _ _ hde => hde.1
  refine ⟨⟨h, hh, hids⟩, ?_, fun e he => ?_⟩
  · rw [hids]
    exact hk.ids_of_find? hh
  · obtain ⟨d, hd, -, hembedding⟩ := exists_mem_of_forall₂ hkept.flip he
    rw [hembedding, hdim]
    exact hindexed a h (Keyed.mem_of_find? hh) d hd

end Catalog

/-! ### Retrieval in a world that calls lead to -/

namespace Store

theorem Reachable.sound {f : Fidelity} {w : World (Catalog f)} (hw : Reachable (.empty f) w) :
    w.backend.Sound :=
  hw.invariant Catalog.sound_empty fun _ _ => Preserves.ensures fun _ => Catalog.preserves_sound _

theorem Reachable.indexed {f : Fidelity} {w : World (Catalog f)} (hw : Reachable (.empty f) w) :
    w.backend.Indexed :=
  hw.invariant Catalog.indexed_empty ensures_indexed

/-- A retrieval results in the same reply on a backend and on one that refines it. -/
lemma retrieve_reached_eq {R : σ → τ → Prop} (hR : Backend.Refinement R) {s : σ} {t : τ}
    (hst : R s t) (calls : List Call) (store : Store) (name : String) (queries : List String)
    (limit : Option ℕ) (threshold : Option Scalar) :
    ((store.retrieve name queries limit threshold).exec (reached calls s)).1 =
      ((store.retrieve name queries limit threshold).exec (reached calls t)).1 :=
  Agree.eq_iff.mp
    (retrieve_sim hR trivial name queries limit threshold (related_reached hR hst calls)).1

/-- The lists of hits are the answers to queries in a world: in the order of the queries, the
documents nearest to the embeddings that the embedder answers for them, among all documents of the
collection. These stand in the order of the catalog `k`, which adds a document with a new id at the end
and puts one with a stored id in the place of the stored one. -/
def Answers {f : Fidelity} (store : Store) (name : String) (queries : List String)
    (limit : Option ℕ) (w : World σ) (k : Catalog f) (lists : List (List Hit)) : Prop :=
  ∃ c h documents embeddings,
    Backend.collection? (store.address name) w.backend = .ok (some c) ∧
    Backend.documents (store.address name) w.backend = .ok documents ∧
    Keyed.find? (store.address name) k.holdings = some h ∧
    documents.map (·.id) = h.documents.map (·.id) ∧
    (queries ≠ [] → store.embedder.answer w.calls queries = .ok embeddings) ∧
    embeddings.length = queries.length ∧
    List.Forall₂ (fun q hits =>
      Ranking.Nearest c.metric q (limit.getD store.limit) documents hits) embeddings lists

variable {store : Store} {name : String} {queries : List String} {limit : Option ℕ}
  {threshold : Option Scalar} {lists : List (List Hit)}

/-- A retrieval that succeeds on a backend which refines a catalog has searched the documents that are
read of the catalog, with embeddings of the length of each query. -/
theorem searched_of_retrieve {f : Fidelity} {R : σ → Catalog f → Prop} (hR : Backend.Refinement R)
    {s : σ} (hs : R s (.empty f)) (calls : List Call)
    (h : ((store.retrieve name queries limit threshold).exec (reached calls s)).1 = .ok lists) :
    ∃ c documents embeddings,
      Backend.collection? (store.address name) (reached calls s).backend = .ok (some c) ∧
      Backend.documents (store.address name) (reached calls s).backend = .ok documents ∧
      Backend.documents (store.address name) (reached calls (Catalog.empty f)).backend =
        .ok documents ∧
      Catalog.Searchable (store.address name) (reached calls (Catalog.empty f)).backend c
        documents ∧
      ((Indexing.embedQueries store.embedder queries).exec (reached calls s).calls).1 =
        .ok embeddings ∧
      (∀ q ∈ embeddings, ∀ d ∈ documents, ∃ e, d.embedding = some e ∧ e.length = q.length) ∧
      lists = embeddings.map fun q =>
        Ranking.rank c.metric q (limit.getD store.limit) threshold documents := by
  have hreachable := reachable_reached calls (Catalog.empty f)
  obtain ⟨hrel, -⟩ := related_reached hR hs calls
  obtain ⟨c, documents, embeddings, hc, hdocs, hembed, hcheck, hlists⟩ := retrieve_eq_ok h
  have hdocsk := (hR.documents hrel trivial).symm.trans hdocs
  have hsearchable := Catalog.searchable hreachable.sound hreachable.indexed
    ((hR.collection?_eq hrel _).symm.trans hc) hdocsk
  refine ⟨c, documents, embeddings, hc, hdocs, hdocsk, hsearchable, hembed, fun q hq d hd => ?_,
    hlists⟩
  obtain ⟨e, he, -, hdim⟩ := hsearchable.fits d hd
  exact ⟨e, he, (Holdings.length_of_checkQueries hcheck hdim q hq).symm⟩

theorem answers_of_retrieve {f : Fidelity} {R : σ → Catalog f → Prop} (hR : Backend.Refinement R)
    {s : σ} (hs : R s (.empty f)) (calls : List Call)
    (h : ((store.retrieve name queries limit none).exec (reached calls s)).1 = .ok lists) :
    Answers store name queries limit (reached calls s) (reached calls (Catalog.empty f)).backend
      lists := by
  obtain ⟨c, documents, embeddings, hc, hdocs, -, ⟨⟨holding, hholding, hids⟩, hnodup, -⟩, hembed,
    hembedded, rfl⟩ := searched_of_retrieve hR hs calls h
  obtain ⟨hanswer, hlength⟩ := Indexing.embedQueries_eq_ok_iff.mp hembed
  refine ⟨c, holding, documents, embeddings, hc, hdocs, hholding, hids, hanswer, hlength, ?_⟩
  rw [List.forall₂_map_right_iff, List.forall₂_same]
  exact fun q hq => Ranking.rank_nearest _ q _ hnodup (hembedded q hq)

/-- **Wherever calls lead to on memory or on tables, a retrieval that succeeds without a threshold
gives, for each query, the documents nearest to its embedding.** -/
theorem retrieve_nearest (calls : List Call) (store : Store) (name : String) (queries : List String)
    (limit : Option ℕ) (lists : List (List Hit)) :
    (((store.retrieve name queries limit none).exec (reached calls Memory.empty)).1 = .ok lists →
      Answers store name queries limit (reached calls Memory.empty)
        (reached calls (Catalog.empty .exact)).backend lists) ∧
    (((store.retrieve name queries limit none).exec (reached calls Tables.empty)).1 = .ok lists →
      Answers store name queries limit (reached calls Tables.empty)
        (reached calls (Catalog.empty .textual)).backend lists) :=
  ⟨answers_of_retrieve Memory.refinement Memory.shows_empty calls,
    answers_of_retrieve Tables.refinement Tables.shows_empty calls⟩

/-- Three documents, of which the first and the last are embedded alike. -/
def tiedBatch : List Call :=
  [⟨foxes, instant 0, .create "animals" false false⟩,
    ⟨foxes, instant 1, .insert "animals" false
      [⟨"wolf", "a wolf", none, none⟩, ⟨"fox", "a fox", none, none⟩,
        ⟨"dog", "a dog", none, none⟩]⟩]

/-- The hound is nearest to the wolf and to the dog, in this order, and the vixen to the fox. -/
lemma ids_rank_tied {documents : List Document}
    (h : documents.map (fun d => (d.id, d.embedding)) = [("wolf", some [⟨0xbf800000⟩]),
      ("fox", some [.one]), ("dog", some [⟨0xbf800000⟩])]) :
    ([[⟨0xbf800000⟩], [.one]] : List Embedding).map
        (fun q => (Ranking.rank .cosine q 2 none documents).map (·.1.id)) =
      [["wolf", "dog"], ["fox", "wolf"]] := by
  obtain ⟨wolf, _, rfl, hwolf, h⟩ := List.map_eq_cons_iff.mp h
  obtain ⟨fox, _, rfl, hfox, h⟩ := List.map_eq_cons_iff.mp h
  obtain ⟨dog, _, rfl, hdog, h⟩ := List.map_eq_cons_iff.mp h
  obtain rfl := List.map_eq_nil_iff.mp h
  rw [Prod.mk.injEq] at hwolf hfox hdog
  have hsame : Metric.cosine.distance [⟨0xbf800000⟩] [⟨0xbf800000⟩] = .zero ∧
      Metric.cosine.distance [.one] [.one] = .zero := by
    decide +kernel
  have hother : Metric.cosine.distance [⟨0xbf800000⟩] [.one] = ⟨0x40000000⟩ ∧
      Metric.cosine.distance [.one] [⟨0xbf800000⟩] = ⟨0x40000000⟩ := by
    decide +kernel
  have hnear (d e : Document) : Ranking.nearer (d, .zero) (e, ⟨0x40000000⟩) = true := rfl
  have hfar (d e : Document) : Ranking.nearer (d, ⟨0x40000000⟩) (e, .zero) = false := rfl
  have htie (d e : Document) (x : Scalar) : Ranking.nearer (d, x) (e, x) = true :=
    decide_eq_true le_rfl
  have hwithin (h : Hit) : Ranking.within none h = true := rfl
  simp [Ranking.rank, Ranking.score, hwithin, List.mergeSort, hwolf, hfox, hdog, hsame, hother,
    hnear, hfar, htie]

/-- On a backend that refines a catalog the two queries are answered, with these lists. -/
lemma exists_retrieve_tied {f : Fidelity} {R : σ → Catalog f → Prop} (hR : Backend.Refinement R)
    {s : σ} (hs : R s (.empty f)) :
    ∃ lists : List (List Hit), lists.map (List.map (·.1.id)) = [["wolf", "dog"], ["fox", "wolf"]] ∧
      ((foxes.retrieve "animals" ["hound", "vixen"] (some 2) none).exec
        (reached tiedBatch s)).1 = .ok lists := by
  have hlength : (((foxes.retrieve "animals" ["hound", "vixen"] (some 2) none).exec
      (reached tiedBatch (Catalog.empty f))).1.map List.length) = .ok 2 := by
    cases f <;> decide +kernel
  obtain ⟨lists, hlists, -⟩ := exists_of_map_eq_ok hlength
  refine ⟨lists, ?_, (retrieve_reached_eq hR hs ..).trans hlists⟩
  obtain ⟨c, documents, embeddings, hc, hdocs, hembed, -, rfl⟩ := retrieve_eq_ok hlists
  have hmetric : ((Backend.collection? (foxes.address "animals")
      (reached tiedBatch (Catalog.empty f)).backend).map (Option.map (·.metric))) =
        .ok (some .cosine) := by
    cases f <;> decide +kernel
  have hdocuments : ((Backend.documents (foxes.address "animals")
      (reached tiedBatch (Catalog.empty f)).backend).map
        (List.map fun d => (d.id, d.embedding))) =
          .ok [("wolf", some [⟨0xbf800000⟩]), ("fox", some [.one]),
            ("dog", some [⟨0xbf800000⟩])] := by
    cases f <;> decide +kernel
  obtain ⟨hanswer, -⟩ := Indexing.embedQueries_eq_ok_iff.mp hembed
  obtain rfl : [[⟨0xbf800000⟩], [.one]] = embeddings := Except.ok.inj (hanswer (by simp))
  rw [hc] at hmetric
  rw [hdocs] at hdocuments
  have hmetric : c.metric = .cosine := Option.some.inj (Except.ok.inj hmetric)
  rw [List.map_map, hmetric]
  exact ids_rank_tied (Except.ok.inj hdocuments)

/-- Two queries are answered, each with the two documents nearest to it. -/
theorem retrieve_nearest_tied :
    let m := reached tiedBatch Memory.empty
    let t := reached tiedBatch Tables.empty
    (∃ lists, lists.map (List.map (·.1.id)) = [["wolf", "dog"], ["fox", "wolf"]] ∧
      ((foxes.retrieve "animals" ["hound", "vixen"] (some 2) none).exec m).1 = .ok lists ∧
      Answers foxes "animals" ["hound", "vixen"] (some 2) m
        (reached tiedBatch (Catalog.empty .exact)).backend lists) ∧
    ∃ lists, lists.map (List.map (·.1.id)) = [["wolf", "dog"], ["fox", "wolf"]] ∧
      ((foxes.retrieve "animals" ["hound", "vixen"] (some 2) none).exec t).1 = .ok lists ∧
      Answers foxes "animals" ["hound", "vixen"] (some 2) t
        (reached tiedBatch (Catalog.empty .textual)).backend lists := by
  intro m t
  have hnearest := retrieve_nearest tiedBatch foxes "animals" ["hound", "vixen"] (some 2)
  constructor
  · obtain ⟨lists, hids, hok⟩ := exists_retrieve_tied Memory.refinement Memory.shows_empty
    exact ⟨lists, hids, hok, (hnearest lists).1 hok⟩
  · obtain ⟨lists, hids, hok⟩ := exists_retrieve_tied Tables.refinement Tables.shows_empty
    exact ⟨lists, hids, hok, (hnearest lists).2 hok⟩

end Store

end SemanticStore
