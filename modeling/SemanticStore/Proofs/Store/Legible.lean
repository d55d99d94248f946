import SemanticStore.Proofs.Backend.Tables
import SemanticStore.Proofs.Body
import SemanticStore.Proofs.Clear
import SemanticStore.Proofs.Store.Simulation
import SemanticStore.Proofs.Timestamp

/-!
# What is written on tables can be read again

Tables keep texts. As long as the metadata of all documents that are brought can be read again
(`Body.Legible`), no reading of a store on tables fails, whatever is inserted, updated and taken out.
An update brings metadata that was read before and is written a second time.

* `Catalog.Legible`: everything that a catalog of texts holds can be read from its text.
* `Store.perform_clearly`: a call that brings only metadata that can be read again keeps it so, and
  does not fail for a text that is not read.
* `Store.replies_ne_serialization`: no call of a run of such calls does.
-/

namespace SemanticStore

open SemanticStore.Action

/-! ### Catalogs of texts -/

/-- The time and the metadata in a collection can be read from their texts. -/
structure Holding.Legible (h : Holding) : Prop where
  time : h.descriptor.createdAt.InEra
  documents : ∀ d ∈ h.documents, Body.Legible d.metadata

namespace Fidelity

variable {a : Address} {c : Collection} {d : Document}

lemma clear_collection (h : c.createdAt.InEra) :
    Clear (fun c' => c'.createdAt.InEra) (textual.collection a c) := by
  unfold collection
  dsimp only
  rw [Timestamp.parse?_renderNumeric _ h]
  exact .ok h

lemma clear_document (h : Body.Legible d.metadata) :
    Clear (fun d' => Body.Legible d'.metadata) (textual.document d) := by
  obtain ⟨m, hm, hread⟩ := h.exists_read
  unfold document Body.decode
  dsimp only
  rw [hread]
  exact .ok hm

end Fidelity

namespace Catalog

variable {k : Catalog .textual} {a : Address} {h : Holding} {c : Collection}

/-- Everything in the catalog can be read from its text. -/
def Legible (k : Catalog .textual) : Prop := ∀ a h, (a, h) ∈ k.holdings → h.Legible

theorem legible_empty : (empty .textual).Legible := by simp [Legible, empty]

theorem Legible.store (hk : k.Legible) (hh : h.Legible) : (k.store a h).Legible := by
  intro b h' hm
  rcases Keyed.mem_put hm with heq | hm
  · cases heq
    exact hh
  · exact hk b h' hm

theorem Legible.clear_holding (hk : k.Legible) (a : Address) :
    Clear Holding.Legible (holding a k) := by
  unfold holding
  cases hh : Keyed.find? a k.holdings with
  | none => exact .error rfl
  | some h => exact .ok (hk a h (Keyed.mem_of_find? hh))

/-! ### Operations on catalogs of texts -/

namespace Legible

theorem clear_snapshot (hh : h.Legible) :
    Clear (fun c => c.createdAt.InEra) (snapshot .textual a h) :=
  (Fidelity.clear_collection hh.time).map fun _ => id

theorem clear_collection? (hk : k.Legible) (a : Address) :
    Clear (fun o => ∀ c, o = some c → c.createdAt.InEra) (Backend.collection? a k) := by
  show Clear _ (Catalog.collection? a k)
  unfold Catalog.collection?
  cases hh : Keyed.find? a k.holdings with
  | none => exact .ok fun c hc => by cases hc
  | some h =>
    refine (clear_snapshot (hk a h (Keyed.mem_of_find? hh))).map fun c hc => ?_
    rintro _ ⟨⟩
    exact hc

theorem clear_create (hk : k.Legible) (a : Address) (hc : c.createdAt.InEra) :
    Clear Legible (Backend.create a c k) := by
  show Clear _ (Catalog.create a c k)
  unfold Catalog.create
  cases hn : Keyed.contains a k.holdings with
  | true => exact .error rfl
  | false =>
    refine .ok ?_
    rw [← Keyed.put_of_find?_eq_none (Keyed.contains_eq_false.mp hn)]
    exact hk.store ⟨hc, fun d hd => absurd hd List.not_mem_nil⟩

theorem clear_redescribe (hk : k.Legible) (a : Address) (hc : c.createdAt.InEra) :
    Clear Legible (Backend.redescribe a c k) :=
  (hk.clear_holding a).map fun _ hh => hk.store ⟨hc, hh.documents⟩

theorem clear_drop (hk : k.Legible) (a : Address) :
    Clear (fun r => True ∧ Legible r.2) (Backend.drop a k) :=
  .ok ⟨trivial, fun b h hm => hk b h (Keyed.mem_erase.mp hm).1⟩

theorem clear_collections (hk : k.Legible) (p : String) :
    Clear (fun _ => True) (Backend.collections p k) := by
  refine (Clear.mapM (P := fun _ => True) fun ah hah => ?_).mono fun _ _ => trivial
  exact (clear_snapshot (hk ah.1 ah.2 (List.mem_filter.mp hah).1)).mono fun _ _ => trivial

theorem clear_hasDocument (hk : k.Legible) (a : Address) (id : String) :
    Clear (fun _ => True) (Backend.hasDocument a id k) :=
  (hk.clear_holding a).map fun _ _ => trivial

theorem clear_document? (hk : k.Legible) (a : Address) (id : String) :
    Clear (fun o => ∀ d, o = some d → Body.Legible d.metadata) (Backend.document? a id k) := by
  refine (hk.clear_holding a).bind fun h hh => ?_
  unfold read?
  cases hd : Documents.find? id h.documents with
  | none => exact .ok fun d hd => by cases hd
  | some d =>
    refine (Fidelity.clear_document (hh.documents d (Documents.mem_of_find? hd))).map fun e he => ?_
    rintro _ ⟨⟩
    exact he

theorem clear_put (hk : k.Legible) (a : Address) {d : Document} (hd : Body.Legible d.metadata) :
    Clear Legible (Backend.put a d k) := by
  refine (hk.clear_holding a).map fun h hh => hk.store ⟨hh.time, fun e he => ?_⟩
  rcases Documents.mem_put he with rfl | he
  · exact hd
  · exact hh.documents e he

theorem clear_remove (hk : k.Legible) (a : Address) (id : String) :
    Clear (fun r => True ∧ Legible r.2) (Backend.remove a id k) :=
  (hk.clear_holding a).map fun _ hh =>
    ⟨trivial, hk.store ⟨hh.time, fun d hd => hh.documents d (Documents.mem_erase.mp hd).1⟩⟩

theorem clear_documents (hk : k.Legible) (a : Address) :
    Clear (fun _ => True) (Backend.documents a k) := by
  refine (hk.clear_holding a).bind fun h hh => ?_
  exact (Clear.mapM fun d hd => Fidelity.clear_document (hh.documents d hd)).mono fun _ _ => trivial

theorem clear_count (hk : k.Legible) (a : Address) : Clear (fun _ => True) (Backend.count a k) :=
  (hk.clear_holding a).map fun _ _ => trivial

end Legible

end Catalog

open Catalog (Legible)

/-! ### The holdings of a collection -/

namespace Holdings

variable {a : Address} {c : Collection} {documents : List Document}

lemma clear_commonDimension (documents : List Document) :
    ∀ dimension, Clear (fun _ => True) (commonDimension dimension documents) := by
  induction documents with
  | nil => exact fun _ => .ok trivial
  | cons d rest ih =>
    intro dimension
    unfold commonDimension
    split
    · exact .error rfl
    · split
      · exact .error rfl
      · split
        · exact ih _
        · split
          · exact ih _
          · exact .error rfl

lemma clear_checkQueries (queries : List Embedding) :
    Clear (fun _ => True) (checkQueries c queries) := by
  unfold checkQueries
  split
  · exact .error rfl
  · split
    · exact .ok trivial
    · exact .error rfl

theorem settle_clearly (hc : c.createdAt.InEra) (documents : List Document) :
    Clearly Legible (settle a c documents) fun _ => True := by
  unfold settle
  refine (Clearly.lift (clear_commonDimension documents _)).bind fun dimension _ => ?_
  split
  · rename_i n _
    exact Clearly.write fun k hk => hk.clear_redescribe (c := { c with dimension := some n }) a hc
  · exact Clearly.pure trivial

theorem putAll_clearly (hd : ∀ d ∈ documents, Body.Legible d.metadata) :
    Clearly Legible (putAll a documents) fun _ => True := by
  induction documents with
  | nil => exact Clearly.pure trivial
  | cons d rest ih =>
    obtain ⟨hd, hrest⟩ := List.forall_mem_cons.mp hd
    exact (Clearly.write fun k hk => hk.clear_put a hd).bind fun _ _ => ih hrest

theorem refuseDuplicates_clearly (documents : List Document) :
    ∀ seen, Clearly Legible (refuseDuplicates a c seen documents) fun _ => True := by
  induction documents with
  | nil => exact fun _ => Clearly.pure trivial
  | cons d rest ih =>
    intro seen
    unfold refuseDuplicates
    split
    · exact Clearly.fail rfl
    · refine (Clearly.read fun k hk => hk.clear_hasDocument a d.id).bind fun stored _ => ?_
      cases stored with
      | true => exact Clearly.fail rfl
      | false => exact ih _

theorem write_clearly (hc : c.createdAt.InEra) (hd : ∀ d ∈ documents, Body.Legible d.metadata) :
    Clearly Legible (do settle a c documents; putAll a documents) fun _ => True :=
  (settle_clearly hc documents).bind fun _ _ => putAll_clearly hd

theorem insert_clearly (hc : c.createdAt.InEra) (replacing : Bool)
    (hd : ∀ d ∈ documents, Body.Legible d.metadata) :
    Clearly Legible (insert a c replacing documents) fun _ => True := by
  have hwrite := write_clearly (a := a) hc hd
  unfold insert
  cases documents with
  | nil => exact Clearly.pure trivial
  | cons d rest =>
    cases replacing with
    | true => exact hwrite
    | false => exact (refuseDuplicates_clearly (d :: rest) []).bind fun _ _ => hwrite

theorem merge_clearly (hd : ∀ d ∈ documents, Body.Legible d.metadata) :
    Clearly Legible (merge a documents) fun r => ∀ d ∈ r.2, Body.Legible d.metadata := by
  induction documents with
  | nil => exact Clearly.pure fun d hd => absurd hd List.not_mem_nil
  | cons d rest ih =>
    obtain ⟨hd, hrest⟩ := List.forall_mem_cons.mp hd
    unfold merge
    refine (Clearly.read fun k hk => hk.clear_document? a d.id).bind fun stored hstored => ?_
    refine (ih hrest).bind ?_
    rintro ⟨missing, merged⟩ hmerged
    cases stored with
    | none => exact Clearly.pure hmerged
    | some old =>
      refine Clearly.pure (List.forall_mem_cons.mpr ⟨?_, hmerged⟩)
      show Body.Legible (d.metadata.orElse fun _ => old.metadata)
      cases hmetadata : d.metadata with
      | none => exact hstored old rfl
      | some m =>
        rw [hmetadata] at hd
        exact hd

theorem update_clearly (hc : c.createdAt.InEra) (hd : ∀ d ∈ documents, Body.Legible d.metadata) :
    Clearly Legible (update a c documents) fun _ => True := by
  unfold update
  cases documents with
  | nil => exact Clearly.pure trivial
  | cons d rest =>
    refine (merge_clearly hd).bind ?_
    rintro ⟨missing, merged⟩ hmerged
    cases missing with
    | nil => exact write_clearly hc hmerged
    | cons id ids =>
      intro k hk
      exact ⟨.error rfl, hk⟩

theorem delete_clearly (ids : List String) : Clearly Legible (delete a ids) fun _ => True := by
  induction ids with
  | nil => exact Clearly.pure trivial
  | cons id rest ih =>
    refine (Clearly.change (Q := fun _ => True) fun k hk => hk.clear_remove a id).bind ?_
    refine fun found _ => ?_
    exact ih.bind fun more _ => Clearly.pure trivial

theorem select_clearly (ids : Option (List String)) :
    Clearly Legible (select a ids) fun _ => True := by
  unfold select
  refine (Clearly.read fun k hk => hk.clear_documents a).bind fun documents _ => ?_
  cases ids with
  | none => exact Clearly.pure trivial
  | some ids => exact Clearly.pure trivial

theorem retrieve_clearly (queries : List Embedding) (limit : ℕ) (threshold : Option Scalar) :
    Clearly Legible (retrieve a c queries limit threshold) fun _ => True := by
  unfold retrieve
  refine (Clearly.lift (clear_checkQueries queries)).bind fun _ _ => ?_
  refine (Clearly.read fun k hk => hk.clear_documents a).bind fun documents _ => ?_
  exact Clearly.pure trivial

end Holdings

/-! ### Embedders -/

namespace Document

/-- The document without its embedding. -/
def bare (d : Document) : Document := { d with embedding := none }

lemma exists_of_map_bare {l l' : List Document} {d : Document} (h : l.map bare = l'.map bare)
    (hd : d ∈ l') :
    ∃ d' ∈ l, d'.id = d.id ∧ d'.content = d.content ∧ d'.metadata = d.metadata := by
  have hmem := List.mem_map_of_mem (f := bare) hd
  rw [← h] at hmem
  obtain ⟨d', hd', heq⟩ := List.mem_map.mp hmem
  obtain ⟨hid, hcontent, hmetadata, -⟩ := Document.mk.inj heq
  exact ⟨d', hd', hid, hcontent, hmetadata⟩

lemma ids_of_map_bare {l l' : List Document} (h : l.map bare = l'.map bare) :
    l.map (·.id) = l'.map (·.id) := by
  have hids := congrArg (List.map (·.id)) h
  rwa [List.map_map, List.map_map] at hids

end Document

/-- The embedder does not report that a text does not decode. -/
def Embedder.Clear (e : Embedder) : Prop :=
  ∀ calls texts, SemanticStore.Clear (fun _ => True) (e.answer calls texts)

namespace Indexing

variable {e : Embedder} {documents : List Document}

lemma call_clearly (he : e.Clear) (texts : List String) :
    Clearly (fun _ => True) (e.call texts) fun _ => True :=
  fun calls _ => ⟨he calls texts, trivial⟩

lemma embedChunk_clearly (he : e.Clear) (texts : List String) :
    Clearly (fun _ => True) (embedChunk e texts) fun _ => True := by
  unfold embedChunk
  refine (call_clearly he texts).bind fun found _ => ?_
  split
  · exact Clearly.pure trivial
  · exact Clearly.fail rfl

lemma embedChunks_clearly (he : e.Clear) (chunks : List (List String)) :
    Clearly (fun _ => True) (embedChunks e chunks) fun _ => True := by
  induction chunks with
  | nil => exact Clearly.pure trivial
  | cons texts rest ih =>
    refine (embedChunk_clearly he texts).bind fun found _ => ?_
    exact ih.bind fun more _ => Clearly.pure trivial

lemma map_bare_fill (documents : List Document) : ∀ found,
    (fill documents found).map Document.bare = documents.map Document.bare := by
  induction documents with
  | nil => exact fun _ => rfl
  | cons d rest ih =>
    intro found
    unfold fill
    split <;> simp [Document.bare, ih]

theorem embedMissing_clearly (he : e.Clear) (batchSize : ℕ)
    (hd : ∀ d ∈ documents, Body.Legible d.metadata) :
    Clearly (fun _ => True) (embedMissing e batchSize documents)
      fun ds => ∀ d ∈ ds, Body.Legible d.metadata := by
  refine (embedChunks_clearly he _).bind fun found _ => Clearly.pure fun d hmem => ?_
  obtain ⟨d', hd', -, -, hmetadata⟩ := Document.exists_of_map_bare (map_bare_fill _ found).symm hmem
  exact hmetadata ▸ hd d' hd'

theorem embedQueries_clearly (he : e.Clear) (queries : List String) :
    Clearly (fun _ => True) (embedQueries e queries) fun _ => True := by
  unfold embedQueries
  cases queries with
  | nil => exact Clearly.pure trivial
  | cons query rest =>
    refine (call_clearly he _).bind fun found _ => ?_
    split
    · exact Clearly.pure trivial
    · exact Clearly.fail rfl

end Indexing

/-! ### Worlds -/

namespace World

variable {σ α : Type} {I : σ → Prop} {Q : α → Prop}

lemma onBackend_clearly {x : Action σ α} (h : Clearly I x Q) :
    Clearly (fun w : World σ => I w.backend) (onBackend x) Q := fun _ hw => h hw

lemma onCalls_clearly {x : Action Calls α} (h : Clearly (fun _ => True) x Q) :
    Clearly (fun w : World σ => I w.backend) (onCalls x) Q := fun _ hw => ⟨(h trivial).1, hw⟩

lemma lock_clearly (a : Address) :
    Clearly (fun w : World σ => I w.backend) (lock a) fun _ => True := fun _ hw => ⟨.ok trivial, hw⟩

/-- What is kept on tables can be read from its texts. -/
def Legible (w : World (Catalog .textual)) : Prop := w.backend.Legible

end World

namespace Store

variable {store : Store} {now : Timestamp} {documents : List Document}

/-! ### The operations of a store -/

theorem find_clearly (name : String) :
    Clearly Legible (store.find name) fun c => c.createdAt.InEra := by
  unfold find
  refine (Clearly.read fun k hk => hk.clear_collection? _).bind fun found hfound => ?_
  cases found with
  | none => exact Clearly.fail rfl
  | some c => exact Clearly.pure (hfound c rfl)

theorem add_clearly (hnow : now.InEra) (name : String) :
    Clearly Legible (store.add now name) fun _ => True := by
  unfold add
  refine (Clearly.write fun k hk => ?_).bind fun _ _ => Clearly.pure trivial
  exact hk.clear_create (c := .fresh name store.metric now) _ hnow

theorem createIn_clearly (hnow : now.InEra) (name : String) (overwrite reuse : Bool) :
    Clearly Legible (store.createIn now name overwrite reuse) fun _ => True := by
  unfold createIn
  cases Text.isBlankText name with
  | true =>
    intro k hk
    exact ⟨.error rfl, hk⟩
  | false =>
    refine (Clearly.read fun k hk => hk.clear_collection? (store.address name)).bind ?_
    intro found _
    cases found with
    | none => exact add_clearly hnow name
    | some c =>
      cases overwrite with
      | true =>
        refine (Clearly.change (Q := fun _ => True) fun k hk => hk.clear_drop _).bind ?_
        exact fun _ _ => add_clearly hnow name
      | false =>
        cases reuse with
        | true => exact Clearly.pure trivial
        | false => exact Clearly.fail rfl

theorem index_clearly (he : store.embedder.Clear) (name : String)
    (hd : ∀ d ∈ documents, Body.Legible d.metadata)
    {write : Address → Collection → List Document → Action (Catalog .textual) Unit}
    (hw : ∀ c documents, c.createdAt.InEra → (∀ d ∈ documents, Body.Legible d.metadata) →
      Clearly Legible (write (store.address name) c documents) fun _ => True) :
    Clearly World.Legible (store.index name documents write) fun _ => True := by
  unfold index
  refine (World.onBackend_clearly (find_clearly name)).bind fun _ _ => ?_
  refine (World.onCalls_clearly (Indexing.embedMissing_clearly he _ hd)).bind ?_
  intro prepared hprepared
  refine (World.lock_clearly _).bind fun _ _ => ?_
  refine (World.onBackend_clearly (find_clearly name)).bind fun c hc => ?_
  exact World.onBackend_clearly (hw c prepared hc hprepared)

theorem onHoldings_clearly {α : Type} {Q : α → Prop} (name : String)
    {x : Address → Action (Catalog .textual) α} (hx : Clearly Legible (x (store.address name)) Q) :
    Clearly World.Legible (store.onHoldings name x) Q :=
  (World.lock_clearly _).bind fun _ _ =>
    (World.onBackend_clearly (find_clearly name)).bind fun _ _ => World.onBackend_clearly hx

theorem retrieve_clearly (he : store.embedder.Clear) (name : String) (queries : List String)
    (limit : Option ℕ) (threshold : Option Scalar) :
    Clearly World.Legible (store.retrieve name queries limit threshold) fun _ => True := by
  unfold retrieve
  refine (World.onBackend_clearly (find_clearly name)).bind fun _ _ => ?_
  refine (World.onCalls_clearly (Indexing.embedQueries_clearly he queries)).bind fun found _ => ?_
  refine (World.lock_clearly _).bind fun _ _ => ?_
  refine (World.onBackend_clearly (find_clearly name)).bind fun c _ => ?_
  exact World.onBackend_clearly (Holdings.retrieve_clearly found _ threshold)

/-! ### Requests -/

/-- The metadata that the request brings can be read again. -/
def Request.Legible : Request → Prop
  | insert _ _ documents | update _ documents => ∀ d ∈ documents, Body.Legible d.metadata
  | _ => True

/-- A request made in the years 0 to 9999 whose metadata can be read again, to a store whose
embedder does not report that a text does not decode. -/
structure Call.Legible (c : Call) : Prop where
  now : c.now.InEra
  embedder : c.store.embedder.Clear
  request : c.request.Legible

lemma reply_clearly {α : Type} {Q : α → Prop} {x : Action (World (Catalog .textual)) α}
    (hx : Clearly World.Legible x Q) (F : α → Reply) :
    Clearly World.Legible (do return F (← x)) fun _ => True :=
  hx.bind fun _ _ => Clearly.pure trivial

theorem perform_clearly {c : Call} (hc : c.Legible) :
    Clearly World.Legible c.perform fun _ => True := by
  obtain ⟨store, now, request⟩ := c
  obtain ⟨hnow, he, hrequest⟩ := hc
  show Clearly World.Legible (request.perform store now) _
  cases request with
  | create name overwrite reuse =>
    exact reply_clearly ((World.lock_clearly _).bind fun _ _ =>
      World.onBackend_clearly (createIn_clearly hnow name overwrite reuse)) _
  | describe name =>
    exact reply_clearly ((World.lock_clearly _).bind fun _ _ =>
      World.onBackend_clearly (find_clearly name)) _
  | drop name =>
    have hdrop : Clearly Legible (.change (Backend.drop (store.address name))) fun _ => True :=
      Clearly.change fun k hk => hk.clear_drop _
    have hstore : Clearly World.Legible (store.drop name) fun _ => True :=
      (World.lock_clearly _).bind fun _ _ =>
        (World.onBackend_clearly hdrop).bind fun _ _ => Clearly.pure trivial
    exact reply_clearly hstore fun _ => .done
  | names =>
    have hread : Clearly Legible (.read (Backend.collections store.partition.label)) fun _ => True :=
      Clearly.read fun k hk => hk.clear_collections _
    have hnames : Clearly World.Legible store.names fun _ => True :=
      (World.onBackend_clearly hread).bind fun _ _ => Clearly.pure trivial
    exact reply_clearly hnames _
  | hasCollection name =>
    have hread : Clearly Legible (.read (Backend.hasCollection (store.address name)))
        fun _ => True := Clearly.read fun k hk => .ok trivial
    exact reply_clearly (World.onBackend_clearly hread) _
  | insert name replacing documents =>
    have hinsert : Clearly World.Legible (store.insert name replacing documents) fun _ => True :=
      index_clearly he name hrequest fun c ds hc hds => Holdings.insert_clearly hc replacing hds
    exact reply_clearly hinsert fun _ => .done
  | update name documents =>
    have hupdate : Clearly World.Legible (store.update name documents) fun _ => True :=
      index_clearly he name hrequest fun c ds hc hds => Holdings.update_clearly hc hds
    exact reply_clearly hupdate fun _ => .done
  | delete name ids =>
    have hdelete : Clearly World.Legible (store.delete name ids) fun _ => True :=
      (onHoldings_clearly (x := fun a => Holdings.delete a ids) name
        (Holdings.delete_clearly ids)).bind fun _ _ => Clearly.pure trivial
    exact reply_clearly hdelete fun _ => .done
  | select name ids =>
    exact reply_clearly (onHoldings_clearly (x := fun a => Holdings.select a ids) name
      (Holdings.select_clearly ids)) _
  | count name =>
    have hread : Clearly Legible (Holdings.count (store.address name)) fun _ => True :=
      Clearly.read fun k hk => hk.clear_count _
    exact reply_clearly (onHoldings_clearly name hread) _
  | retrieve name queries limit threshold =>
    exact reply_clearly (retrieve_clearly he name queries limit threshold) _
  | search name query =>
    have hsearch : Clearly World.Legible (store.search name query) fun _ => True :=
      (retrieve_clearly he name [query] none none).bind fun _ _ => Clearly.pure trivial
    exact reply_clearly hsearch _

theorem clear_replies {calls : List Call} (hcalls : ∀ c ∈ calls, c.Legible) :
    ∀ {w : World (Catalog .textual)}, w.Legible →
      ∀ r ∈ replies calls w, Clear (fun _ => True) r := by
  induction calls with
  | nil => exact fun _ r hr => absurd hr List.not_mem_nil
  | cons c rest ih =>
    intro w hw
    obtain ⟨hc, hrest⟩ := List.forall_mem_cons.mp hcalls
    obtain ⟨hreply, hafter⟩ := perform_clearly hc hw
    exact List.forall_mem_cons.mpr ⟨hreply, ih hrest hafter⟩

/-- **No call on tables fails for a text that is not read, if the metadata of all documents that
were brought can be read again.** -/
theorem replies_ne_serialization (calls : List Call) (hcalls : ∀ c ∈ calls, c.Legible) :
    ∀ r ∈ replies calls (.opened Tables.empty), ∀ text, r ≠ .error (.serialization text) := by
  have hrel : World.Related _ (.opened Tables.empty) (.opened (Catalog.empty .textual)) :=
    ⟨Tables.shows_empty, rfl⟩
  rw [replies_eq Tables.refinement calls hrel]
  exact fun r hr => (clear_replies hcalls (w := .opened (.empty .textual)) Catalog.legible_empty r
    hr).ne_serialization

/-- A document with metadata as deep as can be read again is inserted, read, and given a new text. -/
def towerCalls : List Call :=
  [⟨offline .default, instant 0, .create "animals" false false⟩,
    ⟨offline .default, instant 1, .insert "animals" false
      [⟨"1", "a fox", some (Body.tower 125), some [.one]⟩]⟩,
    ⟨offline .default, instant 2, .select "animals" none⟩,
    ⟨offline .default, instant 3, .update "animals" [⟨"1", "an old fox", none, some [.one]⟩]⟩,
    ⟨offline .default, instant 4, .select "animals" (some ["1"])⟩]

/-- None of these calls fails for a text that is not read. -/
theorem replies_ne_serialization_tower :
    (∀ c ∈ towerCalls, c.Legible) ∧
      ∀ r ∈ replies towerCalls (.opened Tables.empty), ∀ text, r ≠ .error (.serialization text) := by
  have hclear : (offline .default).embedder.Clear := fun _ _ => .error rfl
  have hcalls : ∀ c ∈ towerCalls, c.Legible := by
    simp only [towerCalls, List.forall_mem_cons]
    refine ⟨⟨by decide, hclear, trivial⟩, ⟨by decide, hclear, ?_⟩, ⟨by decide, hclear, trivial⟩,
      ⟨by decide, hclear, ?_⟩, ⟨by decide, hclear, trivial⟩, by simp⟩
    · exact List.forall_mem_singleton.mpr ((Body.legible_tower 125).mpr (by decide))
    · exact List.forall_mem_singleton.mpr Body.legible_none
  exact ⟨hcalls, replies_ne_serialization towerCalls hcalls⟩

end Store

end SemanticStore
