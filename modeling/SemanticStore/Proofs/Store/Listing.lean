import SemanticStore.Proofs.Backend.Agreement
import SemanticStore.Proofs.Backend.Orderly
import SemanticStore.Proofs.Store.Histories

/-!
# What a backend lists

`Catalog` keeps what was put. What a backend that refines it shows is given here for whole
collections:

* `Backend.Lists`: all that is read of the documents of a collection is read of one list of
  documents.
* `Catalog.Described`: a descriptor bears the name of its address and is read as it was put. Tables
  write times with four digits for the year, so calls keep this if their times are ones that are read
  as they were put (`Store.described_reached`). Then every collection that is there can be looked up
  (`Catalog.Described.collection?_eq`) and listed (`Catalog.Described.collections_eq`).
-/

namespace SemanticStore

open SemanticStore.Action

/-! ### Descriptors that are read as they were put -/

/-- The times that are read as they were put. -/
def Fidelity.Dates : Fidelity → Timestamp → Prop
  | exact, _ => True
  | textual, t => t.InEra

/-- The descriptor bears the name of its address, and its time is read as it was put. -/
structure Holding.Described (f : Fidelity) (a : Address) (h : Holding) : Prop where
  name : h.descriptor.name = a.name
  time : f.Dates h.descriptor.createdAt

/-- What is shown of a collection: its descriptor with the present number of documents. -/
def Holding.shown (h : Holding) : Collection := { h.descriptor with count := h.documents.length }

variable {f : Fidelity} {a : Address} {h : Holding}

lemma Holding.Described.snapshot_eq (hh : h.Described f a) :
    Catalog.snapshot f a h = .ok h.shown := by
  obtain ⟨hname, htime⟩ := hh
  cases f with
  | exact => rfl
  | textual => exact congrArg (Except.map _) (Fidelity.textual_collection hname htime)

namespace Catalog

variable {k : Catalog f}

/-- Every descriptor bears the name of its address and is read as it was put. -/
def Described (k : Catalog f) : Prop := ∀ a h, (a, h) ∈ k.holdings → h.Described f a

theorem described_empty : (empty f).Described := by simp [Described, empty]

namespace Described

theorem store (hk : k.Described) (hh : h.Described f a) : (k.store a h).Described := by
  intro b h' hm
  rcases Keyed.mem_put hm with heq | hm
  · cases heq
    exact hh
  · exact hk b h' hm

theorem erase (hk : k.Described) (a : Address) :
    Described (f := f) ⟨Keyed.erase a k.holdings⟩ :=
  fun b h' hm => hk b h' (Keyed.mem_erase.mp hm).1

theorem collection?_eq (hk : k.Described) (a : Address) :
    Backend.collection? a k = .ok ((Keyed.find? a k.holdings).map Holding.shown) := by
  show Catalog.collection? a k = _
  unfold Catalog.collection?
  cases hh : Keyed.find? a k.holdings with
  | none => rfl
  | some h =>
    dsimp only
    rw [(hk a h (Keyed.mem_of_find? hh)).snapshot_eq]
    rfl

theorem collections_eq (hk : k.Described) (p : String) : Backend.collections p k =
    .ok ((k.holdings.filter fun ah => ah.1.partition = p).map fun ah => ah.2.shown) :=
  mapM_eq_ok fun ah hah => (hk ah.1 ah.2 (List.mem_filter.mp hah).1).snapshot_eq

/-- A descriptor that was looked up may be written back with another dimension. -/
theorem redescribe {c : Collection} {dimension : Option ℕ} {k' : Catalog f} (hk : k.Described)
    (hc : Store.Shown a c k)
    (hk' : Backend.redescribe a { c with dimension := dimension } k = .ok k') : k'.Described := by
  obtain ⟨h, hh, rfl⟩ := holding_map_eq_ok.mp hk'
  have hc : Backend.collection? a k = .ok (some c) := hc
  rw [hk.collection?_eq, hh] at hc
  obtain rfl : h.shown = c := Option.some.inj (Except.ok.inj hc)
  have hdescribed := hk a h (Keyed.mem_of_find? hh)
  exact hk.store ⟨hdescribed.name, hdescribed.time⟩

theorem put {d : Document} {k' : Catalog f} (hk : k.Described)
    (hk' : Backend.put a d k = .ok k') : k'.Described := by
  obtain ⟨h, hh, rfl⟩ := holding_map_eq_ok.mp hk'
  have hdescribed := hk a h (Keyed.mem_of_find? hh)
  exact hk.store ⟨hdescribed.name, hdescribed.time⟩

theorem remove {id : String} {b : Bool} {k' : Catalog f} (hk : k.Described)
    (hk' : Backend.remove a id k = .ok (b, k')) : k'.Described := by
  obtain ⟨h, hh, heq⟩ := holding_map_eq_ok.mp hk'
  cases heq
  have hdescribed := hk a h (Keyed.mem_of_find? hh)
  exact hk.store ⟨hdescribed.name, hdescribed.time⟩

theorem drop {b : Bool} {k' : Catalog f} (hk : k.Described)
    (hk' : Backend.drop a k = .ok (b, k')) : k'.Described := by
  cases hk'
  exact hk.erase a

theorem create {c : Collection} {k' : Catalog f} (hk : k.Described) (hname : c.name = a.name)
    (htime : f.Dates c.createdAt) (hk' : Backend.create a c k = .ok k') : k'.Described := by
  have hk' : Catalog.create a c k = .ok k' := hk'
  unfold Catalog.create at hk'
  split at hk'
  · cases hk'
  · rename_i hn
    cases hk'
    rw [← Keyed.put_of_find?_eq_none (Keyed.contains_eq_false.mp (eq_false_of_ne_true hn))]
    exact hk.store ⟨hname, htime⟩

end Described

end Catalog

/-- A batch is written to a collection that was looked up. -/
theorem Holdings.write_described {c : Collection} (documents : List Document) :
    Spec (fun k : Catalog f => k.Described ∧ Store.Shown a c k) (write a c documents)
      (fun _ => Catalog.Described) fun _ => Catalog.Described := by
  have hput (documents : List Document) : Spec (Catalog.Described (f := f))
      (putAll a documents) (fun _ => Catalog.Described) fun _ => Catalog.Described := by
    induction documents with
    | nil => exact Spec.pure_keeps _
    | cons d rest ih => exact (Spec.write_keeps fun _ _ hk => hk.put).bind fun _ => ih
  unfold write settle
  refine Spec.bind (Q := fun _ => Catalog.Described) ?_ fun _ => hput documents
  refine ((Spec.lift_keeps _).conseq (fun _ => id) (fun _ _ => id) fun _ _ => And.left).bind
    fun dimension => ?_
  split
  · exact Spec.write (fun _ _ hk => hk.1.redescribe hk.2) fun _ _ hk _ => hk.1
  · exact Spec.pure fun _ => And.left

namespace Store

variable {store : Store} {now : Timestamp}

theorem ensures_described (store : Store) (hnow : f.Dates now) :
    store.Ensures now (Catalog.Described (f := f)) Catalog.Described Catalog.Described where
  done _ := id
  failed _ := id
  add name := by
    refine Spec.bind (Q := fun _ => Catalog.Described) ?_ fun _ => Spec.pure_keeps _
    exact (Spec.write_keeps fun _ _ hk => hk.create rfl hnow).pre fun _ => And.left
  replace name _ := by
    refine ((dropped_spec Catalog.Described.drop).pre fun _ => And.left).bind fun _ => ?_
    exact (Spec.write_keeps fun _ _ hk => hk.create rfl hnow).bind fun _ => Spec.pure_keeps _
  drop _ := dropped_spec Catalog.Described.drop
  write _ _ documents := Holdings.write_described documents
  delete _ _ ids := (deleted_spec Catalog.Described.remove ids).pre fun _ => And.left

section Run

variable {σ : Type} [Backend σ]

theorem invariant_afterAll {I : σ → Prop} {calls : List Call}
    (h : ∀ c ∈ calls, c.store.Ensures c.now I I I) {w : World σ} (hw : I w.backend) :
    I (afterAll calls w).backend := by
  induction calls generalizing w with
  | nil => exact hw
  | cons c rest ih =>
    obtain ⟨hc, hrest⟩ := List.forall_mem_cons.mp h
    exact ih hrest (hc.after hw)

end Run

/-- The calls are made at times that are read as they were put. -/
def Dated (f : Fidelity) (calls : List Call) : Prop := ∀ c ∈ calls, f.Dates c.now

theorem described_afterAll {calls : List Call} (hcalls : Dated f calls) {v : World (Catalog f)}
    (hv : v.backend.Described) : (afterAll calls v).backend.Described :=
  invariant_afterAll (fun c hc => ensures_described c.store (hcalls c hc)) hv

theorem described_reached {calls : List Call} (hcalls : Dated f calls) :
    (reached calls (Catalog.empty f)).backend.Described :=
  described_afterAll hcalls Catalog.described_empty

end Store

/-! ### The documents of a collection -/

/-- The documents at an address; none if there is no collection. -/
def Catalog.documentsAt (a : Address) (k : Catalog f) : List Document :=
  ((Keyed.find? a k.holdings).map Holding.documents).getD []

/-- All that is read of the documents at an address is read of the documents of a list, each as far as
it is given back. -/
structure Backend.Lists {σ : Type} [Backend σ] (f : Fidelity) (a : Address)
    (documents : List Document) (s : σ) : Prop where
  ids : (documents.map (·.id)).Nodup
  scan : Backend.documents a s = documents.mapM f.document
  stored : ∀ d ∈ documents, Backend.document? a d.id s = (f.document d).map some
  absent : ∀ id ∉ documents.map (·.id), Backend.document? a id s = .ok none
  has : ∀ id, Backend.hasDocument a id s = .ok (decide (id ∈ documents.map (·.id)))
  count : Backend.count a s = .ok documents.length

/-- Documents that are given back as they were put are what is read. -/
theorem Backend.Lists.scan_eq {σ : Type} [Backend σ] {documents : List Document} {s : σ}
    (h : Backend.Lists f a documents s) (hd : ∀ d ∈ documents, f.document d = .ok d) :
    Backend.documents a s = .ok documents := by
  rw [h.scan, mapM_eq_ok (g := id) hd, List.map_id]

lemma Documents.find?_of_mem {d : Document} {l : List Document} (hl : (l.map (·.id)).Nodup)
    (hd : d ∈ l) : find? d.id l = some d := by
  unfold find?
  refine List.find?_eq_some_iff_append.mpr ⟨by simp, ?_⟩
  obtain ⟨init, tail, rfl⟩ := List.append_of_mem hd
  refine ⟨init, tail, rfl, fun e he => ?_⟩
  rw [List.map_append, List.map_cons, List.nodup_append] at hl
  have hne := hl.2.2 e.id (List.mem_map_of_mem he) d.id (List.mem_cons_self ..)
  simpa using hne

namespace Catalog

variable {k : Catalog f}

lemma documentsAt_of_find? (hh : Keyed.find? a k.holdings = some h) :
    k.documentsAt a = h.documents := by
  unfold documentsAt
  rw [hh]
  rfl

theorem lists (hk : k.Sound) (hh : Keyed.find? a k.holdings = some h) :
    Backend.Lists f a (k.documentsAt a) k := by
  have hids := hk.ids_of_find? hh
  have hholding := holding_of_find? hh
  rw [documentsAt_of_find? hh]
  refine ⟨hids, ?_, fun d hd => ?_, fun id hid => ?_, fun id => ?_, ?_⟩
  · show (holding a k >>= fun h => h.documents.mapM f.document) = _
    rw [hholding]
    rfl
  · rw [document?_of_find? hh]
    unfold read?
    rw [Documents.find?_of_mem hids hd]
  · rw [document?_of_find? hh]
    unfold read?
    rw [Documents.find?_eq_none_iff.mpr hid]
  · rw [← isSome_find?]
    exact congrArg (Except.map _) hholding
  · exact congrArg (Except.map _) hholding

theorem lists_store (hk : k.Sound) (hh : (h.documents.map (·.id)).Nodup) (a : Address) :
    Backend.Lists f a h.documents (k.store a h) := by
  have hlists := lists (sound_store hk hh) (find?_store_self a h k)
  rwa [documentsAt_of_find? (find?_store_self ..)] at hlists

end Catalog

theorem Backend.Lists.of_refinement {σ τ : Type} [Backend σ] [Backend τ] {R : σ → τ → Prop}
    (hR : Backend.Refinement R) {s : σ} {t : τ} (hst : R s t) {documents : List Document}
    (ht : Backend.Lists f a documents t) : Backend.Lists f a documents s where
  ids := ht.ids
  scan := (hR.documents hst trivial).trans ht.scan
  stored d hd := (hR.document? d.id hst trivial).trans (ht.stored d hd)
  absent id hid := (hR.document? id hst trivial).trans (ht.absent id hid)
  has id := (hR.hasDocument id hst trivial).trans (ht.has id)
  count := (hR.count hst trivial).trans ht.count

end SemanticStore
