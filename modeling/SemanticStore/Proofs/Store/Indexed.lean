import SemanticStore.Proofs.Backend.Memory
import SemanticStore.Proofs.Backend.Tables
import SemanticStore.Proofs.Store.Ensures
import SemanticStore.Proofs.Store.Simulation

/-!
# Stored documents are indexed

In every world that calls lead to, whatever their embedders answer, each stored document has a finite
embedding of the dimension of its collection, and a collection without a dimension is empty.

The dimension is written before the documents. In between, the collection has a dimension and takes
embeddings of this length (`Catalog.Takes`); `Holdings.settle_spec` establishes this together with
the check of the batch, and every `put` of the batch keeps it.
-/

namespace SemanticStore

open SemanticStore.Action

/-- The embedding is there and finite, and its length is the dimension. -/
def Embedding.Fits (dimension : Option ℕ) (e : Option Embedding) : Prop :=
  ∃ v, e = some v ∧ v.isFinite = true ∧ dimension = some v.length

/-- Every document on a shelf has an embedding that fits the descriptor. -/
def Memory.Indexed (m : Memory) : Prop :=
  ∀ a s, (a, s) ∈ m.shelves →
    (∀ d ∈ s.documents, Embedding.Fits s.descriptor.dimension d.embedding) ∧
      (s.descriptor.dimension = none → s.documents = [])

/-- Every row of a document belongs to a collection, and its bytes are an embedding that fits the
dimension in the row of the collection. -/
def Tables.Indexed (t : Tables) : Prop :=
  ∃ cs ds, t = ⟨some cs, some ds⟩ ∧
    (∀ r ∈ ds.rows, ∃ c ∈ cs.rows, r.In (addressOf c)) ∧
    ∀ c ∈ cs.rows, ∃ dimension, dimension? c.dimension = some dimension ∧
      (∀ r ∈ ds.rows, r.In (addressOf c) →
        Embedding.Fits dimension (r.embedding.bind Embedding.Blob.decode?)) ∧
      (dimension = none → ∀ r ∈ ds.rows, ¬ r.In (addressOf c))

/-! ### Catalogs -/

/-- Every document has an embedding that fits the descriptor. -/
def Holding.Indexed (h : Holding) : Prop :=
  ∀ d ∈ h.documents, Embedding.Fits h.descriptor.dimension d.embedding

theorem Holding.Indexed.documents_eq_nil {h : Holding} (hh : h.Indexed)
    (hn : h.descriptor.dimension = none) : h.documents = [] := by
  cases hd : h.documents with
  | nil => rfl
  | cons d rest =>
    obtain ⟨v, -, -, hdim⟩ := hh d (hd ▸ List.mem_cons_self ..)
    rw [hn] at hdim
    cases hdim

namespace Catalog

variable {f : Fidelity} {k : Catalog f} {a : Address} {h : Holding} {dimension : Option ℕ}

def Indexed (k : Catalog f) : Prop := ∀ a h, (a, h) ∈ k.holdings → h.Indexed

/-- The catalog is indexed and has a collection of this dimension at the address. -/
def Takes (a : Address) (dimension : Option ℕ) (k : Catalog f) : Prop :=
  k.Indexed ∧ ∃ h, Keyed.find? a k.holdings = some h ∧ h.descriptor.dimension = dimension

theorem indexed_empty : (empty f).Indexed := by simp [Indexed, empty]

theorem Indexed.store (hk : k.Indexed) (hh : h.Indexed) : (k.store a h).Indexed := by
  intro b h' hm
  rcases Keyed.mem_put hm with heq | hm
  · cases heq
    exact hh
  · exact hk b h' hm

theorem Indexed.drop {b : Bool} {k' : Catalog f} (hk : k.Indexed)
    (h : Backend.drop a k = .ok (b, k')) : k'.Indexed := by
  cases h
  intro a' h' hm
  exact hk a' h' (Keyed.mem_erase.mp hm).1

theorem Indexed.create {c : Collection} {k' : Catalog f} (hk : k.Indexed)
    (h : Backend.create a c k = .ok k') : k'.Indexed := by
  have h : Catalog.create a c k = .ok k' := h
  unfold Catalog.create at h
  split at h
  · cases h
  · cases h
    intro b h' hm
    rcases List.mem_append.mp hm with hm | hm
    · exact hk b h' hm
    · cases List.mem_singleton.mp hm
      intro d hd
      exact absurd hd List.not_mem_nil

theorem takes_of_shown {c : Collection} (hk : k.Indexed) (hc : Store.Shown a c k) :
    Takes a c.dimension k := by
  obtain ⟨h, hh, hdim⟩ := exists_of_collection? hc
  exact ⟨hk, h, hh, hdim.symm⟩

theorem Takes.redescribe {c : Collection} {n : ℕ} {k' : Catalog f} (hk : Takes a none k)
    (h : Backend.redescribe a { c with dimension := some n } k = .ok k') : Takes a (some n) k' := by
  obtain ⟨hk, h₀, hh₀, hdim⟩ := hk
  obtain ⟨h₁, hh₁, rfl⟩ := holding_map_eq_ok.mp h
  obtain rfl := Option.some.inj (hh₀.symm.trans hh₁)
  have hnil := Holding.Indexed.documents_eq_nil (hk a h₀ (Keyed.mem_of_find? hh₀)) hdim
  refine ⟨hk.store fun d hd => ?_, _, Keyed.find?_put_self, rfl⟩
  dsimp only at hd
  rw [hnil] at hd
  exact absurd hd List.not_mem_nil

theorem Takes.put {d : Document} {k' : Catalog f} (hk : Takes a dimension k)
    (hd : Embedding.Fits dimension d.embedding) (h : Backend.put a d k = .ok k') :
    Takes a dimension k' := by
  obtain ⟨hk, h₀, hh₀, rfl⟩ := hk
  obtain ⟨h₁, hh₁, rfl⟩ := holding_map_eq_ok.mp h
  obtain rfl := Option.some.inj (hh₀.symm.trans hh₁)
  refine ⟨hk.store fun e he => ?_, _, Keyed.find?_put_self, rfl⟩
  rcases Documents.mem_put he with rfl | he
  · exact hd
  · exact hk a h₀ (Keyed.mem_of_find? hh₀) e he

theorem Indexed.remove {id : String} {b : Bool} {k' : Catalog f} (hk : k.Indexed)
    (h : Backend.remove a id k = .ok (b, k')) : k'.Indexed := by
  obtain ⟨h₁, hh₁, heq⟩ := holding_map_eq_ok.mp h
  cases heq
  exact hk.store fun d hd =>
    hk a h₁ (Keyed.mem_of_find? hh₁) d (Documents.mem_erase.mp hd).1

end Catalog

theorem Tables.Keeps.indexed {cs : Table CollectionRow} {ds : Table DocumentRow}
    {k : Catalog .textual} (hkeeps : Tables.Keeps cs ds k) (hk : k.Indexed) :
    (∀ r ∈ ds.rows, ∃ c ∈ cs.rows, r.In (addressOf c)) ∧
    ∀ c ∈ cs.rows, ∃ dimension, dimension? c.dimension = some dimension ∧
      (∀ r ∈ ds.rows, r.In (addressOf c) →
        Embedding.Fits dimension (r.embedding.bind Embedding.Blob.decode?)) ∧
      (dimension = none → ∀ r ∈ ds.rows, ¬ r.In (addressOf c)) := by
  constructor
  · intro r hr
    obtain ⟨a, ha, hra⟩ := hkeeps.owned r hr
    obtain ⟨ah, hah, rfl⟩ := List.mem_map.mp ha
    obtain ⟨c, hc, hkc⟩ := exists_mem_of_forall₂ hkeeps.collections.flip hah
    refine ⟨c, hc, ?_⟩
    rwa [CollectionRow.addressOf_eq hkc.place]
  · intro c hc
    obtain ⟨⟨a, h⟩, hah, hkc⟩ := exists_mem_of_forall₂ hkeeps.collections hc
    have hh := hk a h hah
    have hrow : ∀ r ∈ ds.rows, r.In a → ∃ d ∈ h.documents, r.Keeps d := fun r hr hra =>
      exists_mem_of_forall₂ (hkeeps.documents a h hah)
        (List.mem_filter.mpr ⟨hr, decide_eq_true hra⟩)
    rw [CollectionRow.addressOf_eq hkc.place]
    refine ⟨h.descriptor.dimension, ?_, fun r hr hra => ?_, fun hn r hr hra => ?_⟩
    · rw [hkc.dimension, dimension?_dimensionCell]
    · obtain ⟨d, hd, hrd⟩ := hrow r hr hra
      have hdecode : r.embedding.bind Embedding.Blob.decode? = d.embedding := by
        rw [hrd.embedding]
        cases d.embedding with
        | none => rfl
        | some v => exact Embedding.Blob.decode?_encode v
      rw [hdecode]
      exact hh d hd
    · obtain ⟨d, hd, -⟩ := hrow r hr hra
      rw [hh.documents_eq_nil hn] at hd
      exact absurd hd List.not_mem_nil

/-! ### Checking and writing a batch -/

namespace Holdings

/-- The check of a batch finds a dimension that all its documents fit, and keeps one that is there. -/
theorem commonDimension_fits {documents : List Document} :
    ∀ {dimension found : Option ℕ}, commonDimension dimension documents = .ok found →
      (∀ d ∈ documents, Embedding.Fits found d.embedding) ∧
        ∀ n, dimension = some n → found = some n := by
  -- on the batch, whatever dimension the documents before have settled
  induction documents with
  | nil =>
    intro dimension found h
    cases h
    exact ⟨fun d hd => absurd hd List.not_mem_nil, fun _ => id⟩
  | cons d rest ih =>
    intro dimension found h
    unfold commonDimension at h
    cases hd : d.embedding with
    | none =>
      rw [hd] at h
      cases h
    | some e =>
      rw [hd] at h
      cases he : e.isFinite with
      | false => simp [he] at h
      | true =>
        simp only [he] at h
        cases dimension with
        | none =>
          obtain ⟨hrest, hfound⟩ := ih h
          refine ⟨List.forall_mem_cons.mpr ⟨?_, hrest⟩, fun n hn => by cases hn⟩
          exact ⟨e, hd, he, hfound _ rfl⟩
        | some n =>
          by_cases hn : n = e.length
          · simp only [if_pos hn] at h
            obtain ⟨hrest, hfound⟩ := ih h
            refine ⟨List.forall_mem_cons.mpr ⟨?_, hrest⟩, hfound⟩
            exact ⟨e, hd, he, hn ▸ hfound n rfl⟩
          · simp [if_neg hn] at h

variable {f : Fidelity} {a : Address} {c : Collection}

open Catalog (Indexed Takes)

theorem settle_spec (documents : List Document) :
    Spec (Takes (f := f) a c.dimension) (settle a c documents)
      (fun _ k => ∃ dimension, Takes a dimension k ∧
        ∀ d ∈ documents, Embedding.Fits dimension d.embedding) fun _ => Indexed := by
  unfold settle
  have hcheck := (Spec.lift_found (P := Takes (f := f) a c.dimension)
    (commonDimension c.dimension documents)).conseq (fun _ => id) (fun _ _ => id)
      fun _ _ hk => hk.1
  refine hcheck.bind fun found => ?_
  -- where nothing is written, the dimension that was found is the one that is there
  have hkeep (hfound : commonDimension c.dimension documents = .ok found → found = c.dimension) :
      Spec (fun k => Takes (f := f) a c.dimension k ∧
          commonDimension c.dimension documents = .ok found) (pure ())
        (fun _ k => ∃ dimension, Takes a dimension k ∧
          ∀ d ∈ documents, Embedding.Fits dimension d.embedding) fun _ => Indexed := by
    refine Spec.pure fun k hk => ⟨found, ?_, (commonDimension_fits hk.2).1⟩
    rw [hfound hk.2]
    exact hk.1
  cases hdim : c.dimension with
  | some n =>
    rw [hdim] at hkeep
    exact hkeep fun h => (commonDimension_fits h).2 n rfl
  | none =>
    rw [hdim] at hkeep
    cases found with
    | none => exact hkeep fun _ => rfl
    | some n =>
      refine Spec.write (fun k k' hk hre => ?_) fun k e hk _ => hk.1.1
      exact ⟨some n, hk.1.redescribe hre, (commonDimension_fits hk.2).1⟩

theorem putAll_spec {dimension : Option ℕ} (documents : List Document)
    (hd : ∀ d ∈ documents, Embedding.Fits dimension d.embedding) :
    Spec (Takes (f := f) a dimension) (putAll a documents) (fun _ => Takes a dimension)
      fun _ => Indexed := by
  induction documents with
  | nil => exact Spec.pure_keeps _
  | cons d rest ih =>
    obtain ⟨hd, hrest⟩ := List.forall_mem_cons.mp hd
    exact Spec.bind (Q := fun _ => Takes a dimension)
      (Spec.write (fun _ _ hk hput => hk.put hd hput) fun _ _ hk _ => hk.1) fun _ => ih hrest

theorem write_spec (documents : List Document) :
    Spec (Takes (f := f) a c.dimension) (write a c documents) (fun _ => Indexed) fun _ => Indexed := by
  unfold write
  refine (settle_spec documents).bind fun _ => ?_
  rintro k ⟨dimension, hk, hd⟩
  exact (putAll_spec documents hd).conseq (fun _ => id) (fun _ _ h => h.1) (fun _ _ => id) k hk

end Holdings

/-! ### Stores -/

namespace Store

variable {f : Fidelity}

open Catalog (Indexed)

theorem ensures_indexed (store : Store) (now : Timestamp) :
    store.Ensures now (Indexed (f := f)) Indexed Indexed where
  done _ := id
  failed _ := id
  add _ := (add_spec Indexed.create).pre fun _ => And.left
  replace _ _ := ((dropped_spec Indexed.drop).pre fun _ => And.left).bind fun _ =>
    add_spec Indexed.create
  drop _ := dropped_spec Indexed.drop
  write _ _ documents := (Holdings.write_spec documents).pre fun _ hk =>
    Catalog.takes_of_shown hk.1 hk.2
  delete _ _ ids := (deleted_spec Indexed.remove ids).pre fun _ => And.left

/-- **In every world that calls lead to on memory or on tables, every stored document has a finite
embedding of the dimension of its collection**, and a collection without one is empty. -/
theorem reachable_indexed :
    (∀ w : World Memory, Reachable Memory.empty w → w.backend.Indexed) ∧
      ∀ w : World Tables, Reachable Tables.empty w → w.backend.Indexed := by
  constructor
  · intro w hw
    obtain ⟨v, hv, ⟨-, hview⟩, -⟩ := hw.related Memory.refinement Memory.shows_empty
    have hk := hv.invariant Catalog.indexed_empty ensures_indexed
    intro a s hs
    have hh : Holding.Indexed (Memory.holdingOf s) :=
      hk a _ (hview ▸ List.mem_map_of_mem (f := fun p => (p.1, Memory.holdingOf p.2)) hs)
    exact ⟨hh, hh.documents_eq_nil⟩
  · intro w hw
    obtain ⟨v, hv, ⟨cs, ds, ht, hkeeps⟩, -⟩ := hw.related Tables.refinement Tables.shows_empty
    have hk := hv.invariant Catalog.indexed_empty ensures_indexed
    exact ⟨cs, ds, ht, hkeeps.indexed hk⟩

/-- A collection, and a batch with embeddings of one length. -/
def evenBatch : List Call :=
  [⟨offline .default, instant 0, .create "animals" false false⟩,
    ⟨offline .default, instant 1, .insert "animals" false
      [⟨"1", "a fox", none, some [.one]⟩, ⟨"2", "a wolf", none, some [.zero]⟩]⟩]

/-- Both documents of the batch are stored, so the worlds after it are not indexed for want of any. -/
theorem reachable_indexed_filled :
    let m := evenBatch.foldl (fun w c => c.after w) (.opened Memory.empty)
    let t := evenBatch.foldl (fun w c => c.after w) (.opened Tables.empty)
    ((m.backend.shelves.map fun p => p.2.documents.length) = [2] ∧ m.backend.Indexed) ∧
      (t.backend.documents.map fun ds => ds.rows.length) = some 2 ∧ t.backend.Indexed := by
  intro m t
  have hm : Reachable Memory.empty m := .after (.after .opened _) _
  have ht : Reachable Tables.empty t := .after (.after .opened _) _
  exact ⟨⟨by decide +kernel, reachable_indexed.1 m hm⟩, by decide +kernel, reachable_indexed.2 t ht⟩

end Store

end SemanticStore
