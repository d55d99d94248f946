import SemanticStore.Proofs.Store.Insertion

/-!
# One insertion at a time

An insertion checks its batch against the collection as it was before; where documents are inserted
one at a time (`Store.insertEach`), each is checked against what those before it left. For an embedder
that takes each text by itself, both come to the same (`Store.insert_eq_insertEach`):

* the batch is embedded just if each document is (`Indexing.embedMissing_eq_ok_iff`);
* the first document fixes the dimension of the others (`Holdings.commonDimension_cons`), and its id is
  then stored (`Store.shown_after_insert`);
* so a batch goes in as its first document and then the others (`Store.insert_cons_iff`).
-/

namespace SemanticStore

open SemanticStore.Action

/-! ### Embedding document by document -/

/-- The embedder answers a batch just if it would answer for each text by itself, and then with the
same embeddings; how it fails may depend on the batch. -/
def Embedder.Independent (e : Embedder) (f : String → Except Fault Embedding) : Prop :=
  ∀ calls texts found, e.answer calls texts = .ok found ↔ texts.mapM f = .ok found

theorem Embedder.Separate.independent {e : Embedder} {f : String → Except Fault Embedding}
    (he : e.Separate f) : e.Independent f := fun calls texts found => by rw [he calls texts]

namespace Indexing

variable {e : Embedder} {f : String → Except Fault Embedding} {calls : Calls}
  {documents prepared : List Document}

theorem embedChunks_eq_ok_iff (he : e.Independent f) {runs : List (List String)}
    {found : List Embedding} :
    ((embedChunks e runs).exec calls).1 = .ok found ↔ runs.flatten.mapM f = .ok found := by
  induction runs generalizing calls found with
  | nil => exact Iff.rfl
  | cons texts rest ih =>
    have hchunk : ∀ first, ((embedChunk e texts).exec calls).1 = .ok first ↔
        texts.mapM f = .ok first := by
      intro first
      rw [embedChunk_eq_ok_iff, he calls texts first, and_iff_left_iff_imp]
      exact fun h => (forall₂_of_mapM_eq_ok h).length_eq.symm
    unfold embedChunks
    rw [exec_bind_eq_ok, List.flatten_cons, List.mapM_append, bind_eq_ok_iff]
    refine exists_congr fun first => and_congr (hchunk first) ?_
    rw [exec_bind_eq_ok, bind_eq_ok_iff]
    exact exists_congr fun more => and_congr ih Iff.rfl

/-- **A batch is embedded just if each of its documents is**, and each gets its own embedding. -/
theorem embedMissing_eq_ok_iff (he : e.Independent f) {batchSize : ℕ} :
    ((embedMissing e batchSize documents).exec calls).1 = .ok prepared ↔
      documents.mapM (prepare f) = .ok prepared := by
  unfold embedMissing
  rw [exec_bind_eq_ok, ← map_fill]
  simp only [embedChunks_eq_ok_iff he, flatten_chunks]
  cases (pending documents).mapM f with
  | error fault => simp [Except.map]
  | ok found => simp [Except.map]

end Indexing

/-! ### Checking document by document -/

namespace Holdings

variable {σ : Type} [Backend σ] {f : Fidelity} {R : σ → Catalog f → Prop} {a : Address}
  {c : Collection} {s : σ} {d : Document} {documents : List Document} {dimension : Option ℕ}

/-- The first document is checked by itself, and the others against the dimension that it leaves. -/
lemma commonDimension_cons (d : Document) (rest : List Document) :
    commonDimension dimension (d :: rest) =
      commonDimension dimension [d] >>= fun found => commonDimension found rest := by
  cases hd : d.embedding with
  | none => simp [commonDimension, hd, bind, Except.bind]
  | some e =>
    cases hfinite : e.isFinite with
    | false => simp [commonDimension, hd, hfinite, bind, Except.bind]
    | true =>
      cases dimension with
      | none => simp [commonDimension, hd, hfinite, bind, Except.bind]
      | some n =>
        by_cases hn : n = e.length
        · simp [commonDimension, hd, hfinite, hn, bind, Except.bind]
        · simp [commonDimension, hd, hfinite, hn, bind, Except.bind]

lemma exists_of_commonDimension {found : Option ℕ}
    (h : commonDimension dimension (d :: documents) = .ok found) : ∃ n, found = some n := by
  obtain ⟨_, _, -, hfound⟩ := (commonDimension_fits h).1 d (List.mem_cons_self ..)
  exact ⟨_, hfound⟩

/-- Once its first document is written, what is left of a batch is put without more ado. -/
lemma exec_write_cons {n : ℕ} (hd : commonDimension c.dimension [d] = .ok (some n))
    (h : commonDimension (some n) documents = .ok (some n)) :
    (write a c (d :: documents)).exec s =
      (do write a c [d]; putAll a documents : Action σ Unit).exec s := by
  have hall : commonDimension c.dimension (d :: documents) = .ok (some n) := by
    rw [commonDimension_cons, hd]
    exact h
  have hsettle : (settle a c (d :: documents) : Action σ Unit) = settle a c [d] := by
    unfold settle
    rw [hall, hd]
  have hput : putAll a (d :: documents) =
      (do putAll a [d]; putAll a documents : Action σ Unit) := by
    simp [putAll]
  unfold write
  rw [hsettle, hput, bind_assoc]

/-- A batch passes if its ids and its embeddings do. -/
theorem insert_eq_ok_iff (hR : Backend.Refinement R) (hs : Backend.Refinement.Present R a s)
    (hids : ∀ id, ∃ b, Backend.hasDocument a id s = .ok b) {replacing : Bool} :
    ((insert a c replacing documents).exec s).1 = .ok () ↔
      (replacing = false → (documents.map (·.id)).Nodup ∧
        ∀ d ∈ documents, Backend.hasDocument a d.id s = .ok false) ∧
      ∃ found, commonDimension c.dimension documents = .ok found := by
  have hnew : ((refuseDuplicates a c [] documents).exec s).1 = .ok () ↔
      (documents.map (·.id)).Nodup ∧ ∀ d ∈ documents, Backend.hasDocument a d.id s = .ok false := by
    simp [refuseDuplicates_eq_ok_iff hids []]
  have hwrite : ((write a c documents).exec s).1 = .ok () ↔
      ∃ found, commonDimension c.dimension documents = .ok found := by
    rw [hR.write_fst hs]
    cases commonDimension c.dimension documents <;> simp [Except.map]
  rw [insert_fst, bind_eq_ok_iff, ← hnew, ← hwrite]
  cases replacing with
  | true => simp
  | false =>
    constructor
    · rintro ⟨⟨⟩, hpass, hok⟩
      exact ⟨fun _ => hpass, hok⟩
    · rintro ⟨hpass, hok⟩
      exact ⟨(), hpass rfl, hok⟩

end Holdings

/-- What is read of a descriptor is read, under another dimension, of one with the same time. -/
lemma Fidelity.exists_of_collection {f : Fidelity} {a : Address} {c d c' : Collection}
    (h : f.collection a c = .ok c') (ht : d.createdAt = c.createdAt) :
    ∃ d', f.collection a d = .ok d' := by
  cases f with
  | exact => exact ⟨d, rfl⟩
  | textual =>
    unfold collection at h ⊢
    dsimp only at h ⊢
    rw [ht]
    cases hparse : Timestamp.parse? c.createdAt.renderNumeric with
    | none =>
      rw [hparse] at h
      cases h
    | some t => exact ⟨_, rfl⟩

lemma Backend.Refinement.exists_hasDocument {σ : Type} [Backend σ] {f : Fidelity}
    {R : σ → Catalog f → Prop} {s : σ} {a : Address} (hR : Backend.Refinement R)
    (hs : Backend.Refinement.Present R a s) (id : String) :
    ∃ b, Backend.hasDocument a id s = .ok b := by
  obtain ⟨k, hk, h, hh⟩ := hs
  exact ⟨_, (hR.hasDocument id hk trivial).trans
    (congrArg (Except.map _) (Catalog.holding_of_find? hh))⟩

namespace Store

/-! ### Inserting document by document -/

variable {σ : Type} [Backend σ] {f : Fidelity} {R : σ → Catalog f → Prop} {store : Store}
  {name : String} {replacing : Bool} {e : String → Except Fault Embedding} {c : Collection}
  {d p : Document} {documents prepared : List Document} {w : World σ} {v : World (Catalog f)}

/-- Inserts documents one at a time, up to the first that fails. -/
def insertEach (store : Store) (name : String) (replacing : Bool) :
    List Document → Action (World σ) Unit
  | [] => return ()
  | d :: rest => do
      store.insert name replacing [d]
      store.insertEach name replacing rest

/-- A batch goes into a collection that is looked up just if it is embedded and passes. -/
theorem insert_eq_ok_iff (hR : Backend.Refinement R) (he : store.embedder.Independent e)
    (hwv : World.Related R w v) (hc : Shown (store.address name) c w.backend) :
    ((store.insert name replacing documents).exec w).1 = .ok () ↔
      ∃ prepared, documents.mapM (Indexing.prepare e) = .ok prepared ∧
        (replacing = false → (prepared.map (·.id)).Nodup ∧ ∀ p ∈ prepared,
          Backend.hasDocument (store.address name) p.id w.backend = .ok false) ∧
        ∃ found, Holdings.commonDimension c.dimension prepared = .ok found := by
  have hpresent := hR.present_of_shown hwv.1 hc
  have hinsert : ∀ {prepared calls}, (Indexing.embedMissing store.embedder store.batchSize
      documents).exec w.calls = (.ok prepared, calls) →
      ((store.insert name replacing documents).exec w).1 =
        ((Holdings.insert (store.address name) c replacing prepared).exec w.backend).1 :=
    fun hp => congrArg Prod.fst (exec_index hc hp)
  constructor
  · intro hok
    obtain ⟨_, prepared, calls, -, hp⟩ := index_eq_ok hok
    rw [hinsert hp, Holdings.insert_eq_ok_iff hR hpresent (hR.exists_hasDocument hpresent)] at hok
    exact ⟨prepared, (Indexing.embedMissing_eq_ok_iff he).mp (congrArg Prod.fst hp), hok⟩
  · rintro ⟨prepared, hp, hok⟩
    rw [← Indexing.embedMissing_eq_ok_iff he] at hp
    rwa [hinsert (Prod.ext hp rfl), Holdings.insert_eq_ok_iff hR hpresent
      (hR.exists_hasDocument hpresent)]

lemma insert_backend (he : store.embedder.Independent e)
    (hc : Shown (store.address name) c w.backend)
    (hp : documents.mapM (Indexing.prepare e) = .ok prepared)
    (hok : ((store.insert name replacing documents).exec w).1 = .ok ()) :
    (.ok (), ((store.insert name replacing documents).exec w).2.backend) =
      (Holdings.write (store.address name) c prepared).exec w.backend := by
  rw [← Indexing.embedMissing_eq_ok_iff he] at hp
  unfold insert at hok ⊢
  rw [exec_index hc (Prod.ext hp rfl)] at hok ⊢
  rw [← Holdings.insert_eq_ok hok]
  exact Prod.ext hok.symm rfl

/-- After one document is inserted the collection has a dimension, and its id is one more that is
stored. -/
lemma shown_after_insert (hR : Backend.Refinement R) (he : store.embedder.Independent e)
    (hwv : World.Related R w v) (hc : Shown (store.address name) c w.backend)
    (hp : [d].mapM (Indexing.prepare e) = .ok [p]) {n : ℕ}
    (hn : Holdings.commonDimension c.dimension [p] = .ok (some n))
    (hok : ((store.insert name replacing [d]).exec w).1 = .ok ()) :
    ∃ c', Shown (store.address name) c' ((store.insert name replacing [d]).exec w).2.backend ∧
      c'.dimension = some n ∧
      ∀ id, Backend.hasDocument (store.address name) id
          ((store.insert name replacing [d]).exec w).2.backend =
        if id = p.id then .ok true
        else Backend.hasDocument (store.address name) id w.backend := by
  obtain ⟨hreply, hafter⟩ := insert_sim store hR trivial name replacing [d] hwv
  obtain ⟨h, h', prepared, hh, hprepared, hbackend, hwritten⟩ :=
    insert_effect (Agree.eq_iff.mp hreply ▸ hok)
  rw [Indexing.embedMissing_eq_ok_iff he, hp] at hprepared
  obtain rfl := Except.ok.inj hprepared
  obtain ⟨h₀, c₀, hh₀, hread, rfl⟩ := Catalog.shown_iff_read.mp ((shown_iff hR hwv.1).mp hc)
  obtain rfl := Option.some.inj (hh.symm.trans hh₀)
  obtain ⟨c', hread'⟩ := Fidelity.exists_of_collection hread hwritten.createdAt
  have hfind := Catalog.find?_store_self (store.address name) h' v.backend
  rw [← hbackend] at hfind
  refine ⟨{ c' with count := h'.documents.length }, (shown_iff hR hafter.1).mpr
    (Catalog.shown_iff_read.mpr ⟨h', c', hfind, hread', rfl⟩), ?_, fun id => ?_⟩
  · have hsettled := Holdings.commonDimension_eq_settled hn
    rw [← Fidelity.dimension_of_collection hread] at hwritten
    exact (Fidelity.dimension_of_collection hread').trans (hwritten.dimension.trans hsettled.symm)
  · have hhas : ∀ {k : Catalog f} {g : Holding}, Keyed.find? (store.address name) k.holdings =
        some g → Backend.hasDocument (store.address name) id k =
          .ok (Documents.find? id g.documents).isSome :=
      fun hg => congrArg (Except.map _) (Catalog.holding_of_find? hg)
    rw [hR.hasDocument id hafter.1 trivial, hR.hasDocument id hwv.1 trivial, hhas hfind, hhas hh,
      hwritten.documents]
    show Except.ok (Documents.find? id (Documents.put p h.documents)).isSome = _
    split
    · rename_i hid
      rw [hid, Documents.find?_put_self]
      rfl
    · rename_i hid
      rw [Documents.find?_put_of_ne hid]

/-- The first document of a batch that is inserted goes in by itself, and then the others do. -/
lemma insert_of_insert_cons (hR : Backend.Refinement R) (he : store.embedder.Independent e)
    (hwv : World.Related R w v) (hc : Shown (store.address name) c w.backend) {rest : List Document}
    (hok : ((store.insert name replacing (d :: rest)).exec w).1 = .ok ()) :
    ((store.insert name replacing [d]).exec w).1 = .ok () ∧
      ((store.insert name replacing rest).exec
        ((store.insert name replacing [d]).exec w).2).1 = .ok () ∧
      ((store.insert name replacing (d :: rest)).exec w).2.backend =
        ((store.insert name replacing rest).exec
          ((store.insert name replacing [d]).exec w).2).2.backend := by
  obtain ⟨_, hall, hnew, found, hfound⟩ := (insert_eq_ok_iff hR he hwv hc).mp hok
  obtain ⟨p, ps, hd, hrest, rfl⟩ := mapM_cons_eq_ok_iff.mp hall
  rw [Holdings.commonDimension_cons, bind_eq_ok_iff] at hfound
  obtain ⟨_, hfirst, hfound⟩ := hfound
  obtain ⟨n, rfl⟩ := Holdings.exists_of_commonDimension hfirst
  obtain ⟨hfits, hkeep⟩ := Holdings.commonDimension_fits hfound
  obtain rfl := hkeep n rfl
  have hp : [d].mapM (Indexing.prepare e) = .ok [p] := mapM_singleton_eq_ok_iff.mpr ⟨p, hd, rfl⟩
  have hok₁ : ((store.insert name replacing [d]).exec w).1 = .ok () := by
    refine (insert_eq_ok_iff hR he hwv hc).mpr ⟨[p], hp, fun hr => ⟨by simp, ?_⟩, _, hfirst⟩
    exact List.forall_mem_singleton.mpr ((hnew hr).2 p (List.mem_cons_self ..))
  obtain ⟨c', hc', hn, hhas⟩ := shown_after_insert hR he hwv hc hp hfirst hok₁
  have hafter := (insert_sim store hR trivial name replacing [d] hwv).2
  have hok₂ : ((store.insert name replacing rest).exec
      ((store.insert name replacing [d]).exec w).2).1 = .ok () := by
    refine (insert_eq_ok_iff hR he hafter hc').mpr ⟨ps, hrest, fun hr => ?_, _, hn ▸ hfound⟩
    obtain ⟨hids, hstored⟩ := hnew hr
    rw [List.map_cons, List.nodup_cons] at hids
    refine ⟨hids.2, fun p' hp' => ?_⟩
    have hne : p'.id ≠ p.id := fun hid => hids.1 (hid ▸ List.mem_map_of_mem hp')
    rw [hhas, if_neg hne]
    exact hstored p' (List.mem_cons_of_mem _ hp')
  refine ⟨hok₁, hok₂, ?_⟩
  -- the same documents are put, one after the other
  have hwrite := insert_backend he hc hall hok
  rw [Holdings.exec_write_cons hfirst hfound, exec_bind, ← insert_backend he hc hp hok₁] at hwrite
  have hwrite' := insert_backend he hc' hrest hok₂
  rw [Holdings.exec_write_of_fits hn hfits] at hwrite'
  exact congrArg Prod.snd (hwrite.trans hwrite'.symm)

/-- **Inserting a batch means inserting its first document and then the others.** -/
theorem insert_cons_iff (hR : Backend.Refinement R) (he : store.embedder.Independent e)
    (hwv : World.Related R w v) (hc : Shown (store.address name) c w.backend)
    {rest : List Document} :
    ((store.insert name replacing (d :: rest)).exec w).1 = .ok () ↔
      ((store.insert name replacing [d]).exec w).1 = .ok () ∧
        ((store.insert name replacing rest).exec
          ((store.insert name replacing [d]).exec w).2).1 = .ok () := by
  constructor
  · intro hok
    obtain ⟨hok₁, hok₂, -⟩ := insert_of_insert_cons hR he hwv hc hok
    exact ⟨hok₁, hok₂⟩
  · rintro ⟨hok₁, hok₂⟩
    obtain ⟨_, hp, hnew, _, hfirst⟩ := (insert_eq_ok_iff hR he hwv hc).mp hok₁
    obtain ⟨p, hd, rfl⟩ := mapM_singleton_eq_ok_iff.mp hp
    obtain ⟨n, rfl⟩ := Holdings.exists_of_commonDimension hfirst
    obtain ⟨c', hc', hn, hhas⟩ := shown_after_insert hR he hwv hc hp hfirst hok₁
    have hafter := (insert_sim store hR trivial name replacing [d] hwv).2
    obtain ⟨ps, hrest, hnew', found, hfound⟩ := (insert_eq_ok_iff hR he hafter hc').mp hok₂
    refine (insert_eq_ok_iff hR he hwv hc).mpr
      ⟨p :: ps, mapM_cons_eq_ok_iff.mpr ⟨p, ps, hd, hrest, rfl⟩, fun hr => ?_, found, ?_⟩
    · obtain ⟨hids, hstored⟩ := hnew' hr
      -- an id that is not stored after the first document is not the first, and was not before
      have hother : ∀ p' ∈ ps, p'.id ≠ p.id ∧
          Backend.hasDocument (store.address name) p'.id w.backend = .ok false := by
        intro p' hp'
        have hfalse := hstored p' hp'
        rw [hhas] at hfalse
        split at hfalse
        · cases hfalse
        · rename_i hne
          exact ⟨hne, hfalse⟩
      rw [List.map_cons, List.nodup_cons]
      refine ⟨⟨fun hmem => ?_, hids⟩, List.forall_mem_cons.mpr ⟨?_, fun p' hp' => (hother p' hp').2⟩⟩
      · obtain ⟨p', hp', hid⟩ := List.mem_map.mp hmem
        exact (hother p' hp').1 hid
      · exact (hnew hr).2 p (List.mem_cons_self ..)
    · rw [Holdings.commonDimension_cons, hfirst]
      exact hn ▸ hfound

/-- Inserting documents one at a time is the same as inserting the batch: both succeed or neither
does, and if they do the backend is the same afterwards. -/
structure InsertsAlike (store : Store) (name : String) (replacing : Bool)
    (documents : List Document) (w : World σ) : Prop where
  reply : ((store.insert name replacing documents).exec w).1 = .ok () ↔
    ((store.insertEach name replacing documents).exec w).1 = .ok ()
  backend : ((store.insert name replacing documents).exec w).1 = .ok () →
    ((store.insert name replacing documents).exec w).2.backend =
      ((store.insertEach name replacing documents).exec w).2.backend

lemma insertEach_cons_eq_ok {rest : List Document} :
    ((store.insertEach name replacing (d :: rest)).exec w).1 = .ok () ↔
      ((store.insert name replacing [d]).exec w).1 = .ok () ∧
        ((store.insertEach name replacing rest).exec
          ((store.insert name replacing [d]).exec w).2).1 = .ok () := by
  rw [insertEach, exec_bind_eq_ok]
  exact ⟨fun ⟨⟨⟩, h⟩ => h, fun h => ⟨(), h⟩⟩

theorem insertsAlike_of_shown (hR : Backend.Refinement R) (he : store.embedder.Independent e)
    (documents : List Document) : ∀ {w : World σ} {v : World (Catalog f)} {c : Collection},
      World.Related R w v → Shown (store.address name) c w.backend →
      InsertsAlike store name replacing documents w := by
  induction documents with
  | nil =>
    intro w v c hwv hc
    have hnil : [].mapM (Indexing.prepare e) = .ok [] := rfl
    have hok : ((store.insert name replacing []).exec w).1 = .ok () :=
      (insert_eq_ok_iff hR he hwv hc).mpr ⟨[], hnil, fun _ => ⟨List.nodup_nil, by simp⟩, _, rfl⟩
    refine ⟨iff_of_true hok rfl, fun _ => ?_⟩
    have hwrite := insert_backend he hc hnil hok
    rw [Holdings.exec_write_nil] at hwrite
    exact congrArg Prod.snd hwrite
  | cons d rest ih =>
    intro w v c hwv hc
    have hafter := (insert_sim store hR trivial name replacing [d] hwv).2
    have hrest : ((store.insert name replacing [d]).exec w).1 = .ok () →
        InsertsAlike store name replacing rest ((store.insert name replacing [d]).exec w).2 := by
      intro hok
      obtain ⟨_, hp, -, _, hfirst⟩ := (insert_eq_ok_iff hR he hwv hc).mp hok
      obtain ⟨p, hd, rfl⟩ := mapM_singleton_eq_ok_iff.mp hp
      obtain ⟨n, rfl⟩ := Holdings.exists_of_commonDimension hfirst
      obtain ⟨c', hc', -⟩ := shown_after_insert hR he hwv hc hp hfirst hok
      exact ih hafter hc'
    refine ⟨?_, fun hok => ?_⟩
    · rw [insert_cons_iff hR he hwv hc, insertEach_cons_eq_ok]
      exact and_congr_right fun hok => (hrest hok).reply
    · obtain ⟨hok₁, hok₂, hbackend⟩ := insert_of_insert_cons hR he hwv hc hok
      have hsplit : (store.insertEach name replacing (d :: rest)).exec w =
          (store.insertEach name replacing rest).exec
            ((store.insert name replacing [d]).exec w).2 := by
        have hexec : (store.insert name replacing [d]).exec w =
          (.ok (), ((store.insert name replacing [d]).exec w).2) := Prod.ext hok₁ rfl
        rw [insertEach, exec_bind, hexec]
      rw [hbackend, (hrest hok₁).backend hok₂, hsplit]

theorem insertsAlike_of_refinement (hR : Backend.Refinement R) (he : store.embedder.Independent e)
    (hwv : World.Related R w v) (hne : documents ≠ []) :
    InsertsAlike store name replacing documents w := by
  by_cases hc : ∃ c, Shown (store.address name) c w.backend
  · obtain ⟨c, hc⟩ := hc
    exact insertsAlike_of_shown hR he documents hwv hc
  · -- neither finds the collection
    have hnone : ∀ documents, ¬ ((store.insert name replacing documents).exec w).1 = .ok () := by
      intro documents hok
      obtain ⟨c, -, -, hc', -⟩ := index_eq_ok hok
      exact hc ⟨c, hc'⟩
    obtain ⟨d, rest, rfl⟩ := List.exists_cons_of_ne_nil hne
    refine ⟨iff_of_false (hnone _) fun hok => ?_, fun hok => absurd hok (hnone _)⟩
    exact hnone [d] (insertEach_cons_eq_ok.mp hok).1

/-- **Wherever calls lead to on memory or on tables, a batch is inserted just if its documents can be
inserted one at a time**, and then the backend is the same afterwards. -/
theorem insert_eq_insertEach {e : String → Except Fault Embedding} (store : Store) (name : String)
    (replacing : Bool) (documents : List Document) (he : store.embedder.Independent e)
    (hne : documents ≠ []) :
    (∀ w : World Memory, Reachable Memory.empty w →
      InsertsAlike store name replacing documents w) ∧
    ∀ w : World Tables, Reachable Tables.empty w →
      InsertsAlike store name replacing documents w := by
  constructor
  · intro w hw
    obtain ⟨v, -, hwv⟩ := hw.related Memory.refinement Memory.shows_empty
    exact insertsAlike_of_refinement Memory.refinement he hwv hne
  · intro w hw
    obtain ⟨v, -, hwv⟩ := hw.related Tables.refinement Tables.shows_empty
    exact insertsAlike_of_refinement Tables.refinement he hwv hne

/-- A batch that brings one id twice. -/
def twice : List Document :=
  [⟨"1", "a fox", none, none⟩, ⟨"2", "a wolf", none, none⟩, ⟨"1", "a lynx", none, none⟩]

/-- The batch replaces its own first document, and so do its documents one at a time. Without
`replacing`, the last one is refused either way. -/
theorem insert_eq_insertEach_twice :
    let m := reached [emptyCollection] Memory.empty
    let t := reached [emptyCollection] Tables.empty
    (((hashing.insertEach "animals" true twice).exec m).1 = .ok () ∧
      ((hashing.insert "animals" true twice).exec m).2.backend =
        ((hashing.insertEach "animals" true twice).exec m).2.backend) ∧
    ((hashing.insert "animals" true twice).exec t).2.backend =
      ((hashing.insertEach "animals" true twice).exec t).2.backend ∧
    ¬ ((hashing.insertEach "animals" false twice).exec t).1 = .ok () := by
  intro m t
  have he := (Trigram.separate_embedder 2 true).independent
  have hmemory : ((hashing.insert "animals" true twice).exec m).1 = .ok () := by decide +kernel
  have htables : ((hashing.insert "animals" true twice).exec t).1 = .ok () := by decide +kernel
  have hrefused : ¬ ((hashing.insert "animals" false twice).exec t).1 = .ok () := by decide +kernel
  obtain ⟨memory, tables⟩ := insert_eq_insertEach hashing "animals" true twice he (by simp [twice])
  obtain ⟨-, once⟩ := insert_eq_insertEach hashing "animals" false twice he (by simp [twice])
  have hm := memory m (reachable_reached ..)
  exact ⟨⟨hm.reply.mp hmemory, hm.backend hmemory⟩, (tables t (reachable_reached ..)).backend htables,
    fun h => hrefused ((once t (reachable_reached ..)).reply.mpr h)⟩

end Store

end SemanticStore
