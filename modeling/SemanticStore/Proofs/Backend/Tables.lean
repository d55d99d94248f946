import Mathlib.Data.List.Forall2
import Mathlib.Data.List.Nodup
import Mathlib.Order.Basic
import SemanticStore.Backend.Tables
import SemanticStore.Proofs.Backend.Catalog
import SemanticStore.Proofs.Backend.Simulation
import SemanticStore.Proofs.Embedding.Blob

/-!
# The backend on two tables is a catalog

* `Table.Numbered`: the rows of a table stand by their sequence numbers, none above the last one that
  was given out.
* `Tables.Keeps`: the rows of the two tables are those of the collections of a catalog and of their
  documents, in the order of the catalog, and every row of a document belongs to a collection.
* `Tables.refinement`: a database that keeps a catalog answers every operation as the catalog, and
  keeps the catalog that the operation leads to.
-/

namespace SemanticStore

/-! ### Numbered rows -/

/-- Rows stand by their numbers, none above the last one given out. -/
structure Table.Numbered {ρ : Type} (number : ρ → ℕ) (t : Table ρ) : Prop where
  ascending : t.rows.Pairwise fun r s => number r < number s
  last : ∀ r ∈ t.rows, number r ≤ t.lastSeq

namespace Table.Numbered

variable {ρ : Type} {number : ρ → ℕ} {t : Table ρ}

theorem empty : Numbered number (Table.empty (ρ := ρ)) := ⟨.nil, by simp [Table.empty]⟩

theorem append (h : t.Numbered number) {r : ρ} (hr : number r = t.lastSeq + 1) :
    Numbered number ⟨t.rows ++ [r], t.lastSeq + 1⟩ := by
  refine ⟨List.pairwise_append.mpr ⟨h.ascending, List.pairwise_singleton .., fun s hs s' hs' => ?_⟩,
    fun s hs => ?_⟩
  · obtain rfl := List.mem_singleton.mp hs'
    have := h.last s hs
    omega
  · rcases List.mem_append.mp hs with hs | hs
    · exact Nat.le_succ_of_le (h.last s hs)
    · obtain rfl := List.mem_singleton.mp hs
      exact Nat.le_of_eq hr

theorem filter (h : t.Numbered number) (p : ρ → Bool) :
    Numbered number { t with rows := t.rows.filter p } :=
  ⟨h.ascending.filter p, fun r hr => h.last r (List.mem_filter.mp hr).1⟩

theorem map (h : t.Numbered number) {f : ρ → ρ} (hf : ∀ r, number (f r) = number r) {n : ℕ}
    (hn : t.lastSeq ≤ n) : Numbered number ⟨t.rows.map f, n⟩ := by
  refine ⟨?_, fun r hr => ?_⟩
  · rw [List.pairwise_map]
    exact h.ascending.imp fun hlt => by rwa [hf, hf]
  · obtain ⟨s, hs, rfl⟩ := List.mem_map.mp hr
    rw [hf]
    exact Nat.le_trans (h.last s hs) hn

/-- Numbered rows stand as a query that orders them by number gives them. -/
theorem mergeSort_filter (h : t.Numbered number) (p : ρ → Bool) :
    ((t.rows.filter p).mergeSort fun r s => number r ≤ number s) = t.rows.filter p :=
  List.mergeSort_of_pairwise <|
    (h.ascending.filter p).imp fun hlt => decide_eq_true (Nat.le_of_lt hlt)

end Table.Numbered

/-! ### What rows keep -/

namespace CollectionRow

/-- The row keeps a descriptor for an address. -/
structure Keeps (r : CollectionRow) (a : Address) (c : Collection) : Prop where
  place : r.At a
  dimension : r.dimension = Tables.dimensionCell c.dimension
  metric : r.metric = c.metric.name
  createdAt : r.createdAt = c.createdAt.renderNumeric

variable {r : CollectionRow} {a b : Address} {c : Collection}

lemma addressOf_eq (h : r.At a) : Tables.addressOf r = a := by
  unfold Tables.addressOf
  rw [h.1, h.2]

lemma Keeps.at_iff (h : r.Keeps a c) : r.At b ↔ a = b := by
  constructor
  · intro hb
    rw [← addressOf_eq h.place, addressOf_eq hb]
  · rintro rfl
    exact h.place

end CollectionRow

namespace DocumentRow

/-- The row keeps a document. -/
structure Keeps (r : DocumentRow) (d : Document) : Prop where
  id : r.id = d.id
  body : r.body = Body.encode d.content d.metadata
  embedding : r.embedding = d.embedding.map Embedding.Blob.encode

variable {r : DocumentRow} {a b : Address} {d : Document}

lemma in_unique (ha : r.In a) (hb : r.In b) : a = b := by
  obtain ⟨p, n⟩ := a
  obtain ⟨p', n'⟩ := b
  obtain ⟨h₁, h₂⟩ := ha
  obtain ⟨h₁', h₂'⟩ := hb
  simp_all

lemma filter_in_of_ne {p : DocumentRow → Bool} (hp : ∀ r, p r = false → r.In a) (hb : b ≠ a)
    (rows : List DocumentRow) :
    (rows.filter p).filter (fun r => r.In b) = rows.filter fun r => r.In b := by
  rw [List.filter_filter]
  refine List.filter_congr fun r _ => ?_
  rw [Bool.and_eq_left_iff_imp]
  intro hrb
  by_contra hpr
  have hra : r.In a := hp r (Bool.eq_false_iff.mpr hpr)
  exact hb (in_unique (of_decide_eq_true hrb) hra)

end DocumentRow

namespace Tables

/-! ### Reading rows -/

lemma dimension?_dimensionCell (n : Option ℕ) : dimension? (dimensionCell n) = some n := by
  cases n with
  | none => rfl
  | some n =>
    simp only [dimensionCell, dimension?]
    split
    · rw [if_pos (by omega), Int.sub_add_cancel, Int.toNat_natCast]
    · rw [if_neg (by omega), Int.toNat_natCast]

lemma parse_name (metric : Metric) : Metric.parse metric.name = .ok metric := by
  cases metric <;> rfl

theorem readCollection_eq {r : CollectionRow} {a : Address} {c : Collection} (h : r.Keeps a c)
    (step : String) (count : ℕ) : readCollection step count r =
      (Fidelity.textual.collection a c).map fun c => { c with count := count } := by
  unfold readCollection Fidelity.collection
  simp only [h.dimension, dimension?_dimensionCell, h.metric, parse_name, h.createdAt, h.place.2,
    bind, Except.bind]
  cases Timestamp.parse? c.createdAt.renderNumeric with
  | none => rfl
  | some t => rfl

/-- A row's embedding is read first, so its fault comes before that of the body. -/
theorem readDocument_eq_decode (r : DocumentRow) :
    readDocument r = r.embedding.mapM Embedding.Blob.decode >>= Body.decode r.id r.body := by
  unfold readDocument Embedding.Blob.decode
  cases r.embedding with
  | none => rfl
  | some bytes =>
    rw [Option.mapM_some]
    dsimp only
    cases Embedding.Blob.decode? bytes <;> rfl

theorem readDocument_eq {r : DocumentRow} {d : Document} (h : r.Keeps d) :
    readDocument r = Fidelity.textual.document d := by
  unfold readDocument
  rw [h.embedding, h.id, h.body]
  simp only [Fidelity.document]
  cases d.embedding with
  | none => rfl
  | some e => simp only [Option.map_some, Embedding.Blob.decode?_encode]

/-! ### The rows of a catalog -/

/-- The rows of the two tables are those of a catalog. -/
structure Keeps (cs : Table CollectionRow) (ds : Table DocumentRow) (k : Catalog .textual) :
    Prop where
  sound : k.Sound
  collections : List.Forall₂ (fun r ah => r.Keeps ah.1 ah.2.descriptor) cs.rows k.holdings
  documents : ∀ a h, (a, h) ∈ k.holdings →
    List.Forall₂ DocumentRow.Keeps (ds.rows.filter fun r => r.In a) h.documents
  /-- every document belongs to a collection -/
  owned : ∀ r ∈ ds.rows, ∃ a ∈ k.holdings.map (·.1), r.In a
  collectionsNumbered : cs.Numbered (·.seq)
  documentsNumbered : ds.Numbered (·.seq)

/-- A database that keeps a catalog. -/
def Shows (t : Tables) (k : Catalog .textual) : Prop :=
  ∃ cs ds, t = ⟨some cs, some ds⟩ ∧ Keeps cs ds k

theorem shows_empty : Shows empty (.empty .textual) :=
  ⟨.empty, .empty, rfl, Catalog.sound_empty, .nil, by simp [Catalog.empty], by simp [Table.empty],
    .empty, .empty⟩

namespace Keeps

variable {cs : Table CollectionRow} {ds : Table DocumentRow} {k : Catalog .textual} {a : Address}
  {h h' : Holding} {id : String}

/-! ### Looking up rows -/

lemma isSome_eq_of_rel {α β : Type} {R : α → β → Prop} {o : Option α} {p : Option β}
    (h : Option.Rel R o p) : o.isSome = p.isSome := by
  cases h <;> rfl

theorem find?_collection (hk : Keeps cs ds k) (a : Address) :
    Option.Rel (fun r h => r.Keeps a h.descriptor) (cs.rows.find? fun r => r.At a)
      (Keyed.find? a k.holdings) := by
  have hc := hk.collections
  generalize cs.rows = rows at hc ⊢
  generalize k.holdings = holdings at hc ⊢
  induction hc with
  | nil => exact .none
  | @cons r ah rows holdings hr _ ih =>
    rw [List.find?_cons, Keyed.find?_cons]
    by_cases ha : ah.1 = a
    · subst ha
      rw [if_pos rfl, decide_eq_true hr.place]
      exact .some hr
    · have hat : ¬ r.At a := fun hat => ha (hr.at_iff.mp hat)
      rw [if_neg ha, decide_eq_false hat]
      exact ih

theorem any_collection (hk : Keeps cs ds k) (a : Address) :
    (cs.rows.any fun r => r.At a) = Keyed.contains a k.holdings := by
  rw [← List.isSome_find?]
  exact isSome_eq_of_rel (hk.find?_collection a)

theorem hasCollection_eq (hk : Keeps cs ds k) (a : Address) :
    hasCollection a ⟨some cs, some ds⟩ = .ok (Keyed.contains a k.holdings) := by
  rw [← hk.any_collection]
  rfl

theorem require_eq (hk : Keeps cs ds k) (a : Address) :
    require a ⟨some cs, some ds⟩ = (Catalog.holding a k).map fun _ => () := by
  unfold require
  rw [hk.hasCollection_eq]
  unfold Keyed.contains Catalog.holding
  cases Keyed.find? a k.holdings <;> rfl

/-- The rows of collections, each with the collection of the catalog that it describes. -/
theorem collections_mem (hk : Keeps cs ds k) :
    List.Forall₂ (fun r ah => ah ∈ k.holdings ∧ r.Keeps ah.1 ah.2.descriptor) cs.rows k.holdings :=
  ((List.forall₂_and_left _ _).mpr ⟨fun _ h => h, hk.collections.flip⟩).flip

theorem documents_of_find? (hk : Keeps cs ds k) (hh : Keyed.find? a k.holdings = some h) :
    List.Forall₂ DocumentRow.Keeps (ds.rows.filter fun r => r.In a) h.documents :=
  hk.documents a h (Keyed.mem_of_find? hh)

theorem filter_eq_nil (hk : Keeps cs ds k) (hn : Keyed.find? a k.holdings = none) :
    (ds.rows.filter fun r => r.In a) = [] := by
  rw [List.filter_eq_nil_iff]
  intro r hr hin
  obtain ⟨b, hb, hrb⟩ := hk.owned r hr
  obtain rfl := DocumentRow.in_unique (of_decide_eq_true hin) hrb
  exact Keyed.find?_eq_none_iff.mp hn hb

theorem countOf_eq (hk : Keeps cs ds k) (hh : (a, h) ∈ k.holdings) :
    countOf a ds = h.documents.length := by
  unfold countOf
  rw [List.countP_eq_length_filter, (hk.documents a h hh).length_eq]

theorem rowsOf_eq (hk : Keeps cs ds k) (a : Address) :
    rowsOf a ds = ds.rows.filter fun r => r.In a :=
  hk.documentsNumbered.mergeSort_filter _

theorem find?_document (hk : Keeps cs ds k) (hh : Keyed.find? a k.holdings = some h) (id : String) :
    Option.Rel DocumentRow.Keeps (ds.rows.find? fun r => r.At a id)
      (Documents.find? id h.documents) := by
  have hd := hk.documents_of_find? hh
  have hfilter : (ds.rows.find? fun r => r.At a id) =
      (ds.rows.filter fun r => r.In a).find? fun r => r.id = id := by
    rw [List.find?_filter]
    congr 1
    funext r
    exact decide_eq_decide.mpr (by simp [DocumentRow.At])
  rw [hfilter]
  generalize (ds.rows.filter fun r => r.In a) = rows at hd ⊢
  generalize h.documents = docs at hd ⊢
  induction hd with
  | nil => exact .none
  | @cons r d rows docs hr _ ih =>
    rw [List.find?_cons, Documents.find?_cons, hr.id]
    by_cases hid : d.id = id
    · rw [if_pos hid, decide_eq_true hid]
      exact .some hr
    · rw [if_neg hid, decide_eq_false hid]
      exact ih

theorem any_document (hk : Keeps cs ds k) (hh : Keyed.find? a k.holdings = some h) (id : String) :
    (ds.rows.any fun r => r.At a id) = (Documents.find? id h.documents).isSome := by
  rw [← List.isSome_find?]
  exact isSome_eq_of_rel (hk.find?_document hh id)

/-! ### Writing to the table of collections -/

theorem create (hk : Keeps cs ds k) (hn : Keyed.find? a k.holdings = none) (c : Collection) :
    Keeps ⟨cs.rows ++ [⟨cs.lastSeq + 1, a.partition, a.name, dimensionCell c.dimension,
        c.metric.name, c.createdAt.renderNumeric⟩], cs.lastSeq + 1⟩ ds
      ⟨k.holdings ++ [(a, ⟨c, []⟩)]⟩ := by
  refine ⟨Catalog.sound_create hk.sound hn c, ?_, fun b h hm => ?_, fun r hr => ?_,
    hk.collectionsNumbered.append rfl, hk.documentsNumbered⟩
  · exact List.rel_append hk.collections (.cons ⟨⟨rfl, rfl⟩, rfl, rfl, rfl⟩ .nil)
  · rcases List.mem_append.mp hm with hm | hm
    · exact hk.documents b h hm
    · cases List.mem_singleton.mp hm
      rw [hk.filter_eq_nil hn]
      exact .nil
  · obtain ⟨b, hb, hrb⟩ := hk.owned r hr
    exact ⟨b, by rw [List.map_append]; exact List.mem_append_left _ hb, hrb⟩

theorem redescribe (hk : Keeps cs ds k) (hh : Keyed.find? a k.holdings = some h) (c : Collection) :
    Keeps { cs with
        rows := cs.rows.map fun r =>
          if r.At a then
            { r with
              dimension := dimensionCell c.dimension
              metric := c.metric.name
              createdAt := c.createdAt.renderNumeric }
          else r } ds
      (k.store a { h with descriptor := c }) := by
  have hids := hk.sound.ids_of_find? hh
  refine ⟨Catalog.sound_store hk.sound hids, ?_, fun b h' hm => ?_,
    fun r hr => ?_, hk.collectionsNumbered.map (fun r => by split <;> rfl) (Nat.le_refl _),
    hk.documentsNumbered⟩
  · unfold Catalog.store
    rw [Keyed.put_eq_map hk.sound.addresses hh, List.forall₂_map_left_iff,
      List.forall₂_map_right_iff]
    refine hk.collections.imp fun r bh hr => ?_
    by_cases hb : bh.1 = a
    · rw [if_pos (hr.at_iff.mpr hb), if_pos hb]
      exact ⟨hr.at_iff.mpr hb, rfl, rfl, rfl⟩
    · rw [if_neg fun hat => hb (hr.at_iff.mp hat), if_neg hb]
      exact hr
  · rcases Keyed.mem_put hm with heq | hm
    · cases heq
      exact hk.documents_of_find? (h := h) hh
    · exact hk.documents b h' hm
  · rw [Catalog.store, Keyed.keys_put hh]
    exact hk.owned r hr

theorem drop (hk : Keeps cs ds k) (a : Address) :
    Keeps { cs with rows := cs.rows.filter fun r => ¬ r.At a }
      { ds with rows := ds.rows.filter fun r => ¬ r.In a } ⟨Keyed.erase a k.holdings⟩ := by
  refine ⟨Catalog.sound_erase hk.sound a, ?_, fun b h hm => ?_, fun r hr => ?_,
    hk.collectionsNumbered.filter _, hk.documentsNumbered.filter _⟩
  · refine List.rel_filter (fun r bh hr => ?_) hk.collections
    simp only [decide_eq_true_eq, hr.at_iff, ne_eq]
  · obtain ⟨hm, hb⟩ := Keyed.mem_erase.mp hm
    rw [DocumentRow.filter_in_of_ne (by simp) hb]
    exact hk.documents b h hm
  · obtain ⟨hr, hra⟩ := List.mem_filter.mp hr
    obtain ⟨b, hb, hrb⟩ := hk.owned r hr
    obtain ⟨bh, hbh, rfl⟩ := List.mem_map.mp hb
    refine ⟨bh.1, List.mem_map_of_mem (Keyed.mem_erase.mpr ⟨hbh, fun hba => ?_⟩), hrb⟩
    exact of_decide_eq_true hra (hba ▸ hrb)

/-! ### Writing to the table of documents -/

/-- Rows of one collection are written, those of the others are as before. -/
theorem write {ds' : Table DocumentRow} {docs : List Document} (hk : Keeps cs ds k)
    (hh : Keyed.find? a k.holdings = some h) (hn : ds'.Numbered (·.seq))
    (hrest : ∀ b ≠ a, (ds'.rows.filter fun r => r.In b) = ds.rows.filter fun r => r.In b)
    (hdocs : List.Forall₂ DocumentRow.Keeps (ds'.rows.filter fun r => r.In a) docs)
    (hids : (docs.map (·.id)).Nodup) :
    Keeps cs ds' (k.store a { h with documents := docs }) := by
  refine ⟨Catalog.sound_store hk.sound hids, ?_, fun b h' hm => ?_, fun r hr => ?_,
    hk.collectionsNumbered, hn⟩
  · exact Keyed.forall₂_put hk.collections hh fun _ hr => hr
  · rcases (Keyed.mem_put_iff hk.sound.addresses).mp hm with heq | ⟨hb, hm⟩
    · cases heq
      exact hdocs
    · rw [hrest b hb]
      exact hk.documents b h' hm
  · rw [Catalog.store, Keyed.keys_put hh]
    by_cases hra : r.In a
    · exact ⟨a, List.mem_map_of_mem (f := (·.1)) (Keyed.mem_of_find? hh), hra⟩
    · -- a row of another collection was there before, and had an owner
      have hb : (⟨r.partition, r.collection⟩ : Address) ≠ a := by
        rintro rfl
        exact hra ⟨rfl, rfl⟩
      have hmem : r ∈ ds'.rows.filter fun r' => r'.In ⟨r.partition, r.collection⟩ :=
        List.mem_filter.mpr ⟨hr, decide_eq_true ⟨rfl, rfl⟩⟩
      rw [hrest _ hb] at hmem
      exact hk.owned r (List.mem_filter.mp hmem).1

/-- A document with a stored id is written to the row with that id. -/
theorem put_stored {d e : Document} {body : String} {bytes : Option (List UInt8)}
    (hk : Keeps cs ds k) (hh : Keyed.find? a k.holdings = some h)
    (hd : Documents.find? d.id h.documents = some e) (hbody : body = Body.encode d.content d.metadata)
    (hbytes : bytes = d.embedding.map Embedding.Blob.encode) :
    Keeps cs
      ⟨ds.rows.map fun r =>
          if r.At a d.id then { r with body := body, embedding := bytes } else r, ds.lastSeq + 1⟩
      (k.store a { h with documents := Documents.put d h.documents }) := by
  -- rewriting rows moves none of them to another collection
  set f : DocumentRow → DocumentRow := fun r =>
    if r.At a d.id then { r with body := body, embedding := bytes } else r with hf
  have hids := hk.sound.ids_of_find? hh
  have hin (b : Address) (r : DocumentRow) : (f r).In b ↔ r.In b := by
    rw [hf]
    dsimp only
    split <;> rfl
  have hfilter (b : Address) : ((ds.rows.map f).filter fun r => r.In b) =
      (ds.rows.filter fun r => r.In b).map f := by
    rw [List.filter_map]
    simp only [Function.comp_def, hin]
  have hnumber (r : DocumentRow) : (f r).seq = r.seq := by
    rw [hf]
    dsimp only
    split <;> rfl
  refine hk.write hh (hk.documentsNumbered.map hnumber (Nat.le_succ _)) (fun b hb => ?_) ?_
    (Documents.nodup_put hids)
  · dsimp only
    rw [hfilter]
    conv_rhs => rw [← List.map_id (ds.rows.filter fun r => r.In b)]
    refine List.map_congr_left fun r hr => if_neg fun hra => hb ?_
    exact DocumentRow.in_unique (of_decide_eq_true (List.mem_filter.mp hr).2) hra.1
  · have hmap : (ds.rows.filter fun r => r.In a).map f =
        (ds.rows.filter fun r => r.In a).map fun r =>
          if r.id = d.id then { r with body := body, embedding := bytes } else r :=
      List.map_congr_left fun r hr => by
        have hra : r.In a := of_decide_eq_true (List.mem_filter.mp hr).2
        simp only [hf, DocumentRow.At, hra, true_and]
    dsimp only
    rw [hfilter, hmap, Documents.put_eq_map hids hd, List.forall₂_map_left_iff,
      List.forall₂_map_right_iff]
    refine (hk.documents_of_find? hh).imp fun r d' hr => ?_
    by_cases hd' : d'.id = d.id
    · have hrd := hr.id.trans hd'
      rw [if_pos hrd, if_pos hd']
      exact ⟨hrd, hbody, hbytes⟩
    · rw [if_neg fun hrd => hd' (hr.id.symm.trans hrd), if_neg hd']
      exact hr

/-- A document with a new id gets a row with the next number. -/
theorem put_new {d : Document} {row : DocumentRow} (hk : Keeps cs ds k)
    (hh : Keyed.find? a k.holdings = some h) (hd : Documents.find? d.id h.documents = none)
    (hin : row.In a) (hseq : row.seq = ds.lastSeq + 1) (hrow : row.Keeps d) :
    Keeps cs ⟨ds.rows ++ [row], ds.lastSeq + 1⟩
      (k.store a { h with documents := Documents.put d h.documents }) := by
  refine hk.write hh (hk.documentsNumbered.append hseq) (fun b hb => ?_) ?_
    (Documents.nodup_put (hk.sound.ids_of_find? hh))
  · have hrb : ¬ row.In b := fun hrb => hb (DocumentRow.in_unique hrb hin)
    rw [List.filter_append, List.filter_cons, if_neg (by simpa using hrb), List.filter_nil,
      List.append_nil]
  · rw [List.filter_append, List.filter_cons, if_pos (decide_eq_true hin), List.filter_nil,
      Documents.put_of_find?_eq_none hd]
    exact List.rel_append (hk.documents_of_find? hh) (.cons hrow .nil)

theorem upsert (hk : Keeps cs ds k) (hh : Keyed.find? a k.holdings = some h) (d : Document) :
    Keeps cs (upsert a d.id (Body.encode d.content d.metadata)
        (d.embedding.map Embedding.Blob.encode) ds)
      (k.store a { h with documents := Documents.put d h.documents }) := by
  unfold Tables.upsert
  rw [hk.any_document hh]
  cases hd : Documents.find? d.id h.documents with
  | some e =>
    rw [Option.isSome_some, if_pos rfl]
    exact hk.put_stored hh hd rfl rfl
  | none =>
    rw [Option.isSome_none, if_neg Bool.false_ne_true]
    exact hk.put_new hh hd ⟨rfl, rfl⟩ rfl ⟨rfl, rfl, rfl⟩

theorem remove (hk : Keeps cs ds k) (hh : Keyed.find? a k.holdings = some h) (id : String) :
    Keeps cs { ds with rows := ds.rows.filter fun r => ¬ r.At a id }
      (k.store a { h with documents := Documents.erase id h.documents }) := by
  refine hk.write hh (hk.documentsNumbered.filter _) (fun b hb => ?_) ?_
    (Documents.nodup_erase (hk.sound.ids_of_find? hh))
  · have hin (r : DocumentRow) (hr : decide (¬ r.At a id) = false) : r.In a := by
      have hat : r.At a id := by simpa using hr
      exact hat.1
    exact DocumentRow.filter_in_of_ne hin hb ds.rows
  · have hfilter : ((ds.rows.filter fun r => ¬ r.At a id).filter fun r => r.In a) =
        (ds.rows.filter fun r => r.In a).filter fun r => r.id ≠ id := by
      rw [List.filter_filter, List.filter_filter]
      refine List.filter_congr fun r _ => ?_
      by_cases hra : r.In a <;> simp [hra, DocumentRow.At]
    dsimp only
    rw [hfilter]
    refine List.rel_filter (fun r d hr => ?_) (hk.documents_of_find? hh)
    simp only [decide_eq_true_eq, hr.id, ne_eq]

end Keeps

/-! ### The refinement -/

lemma Keeps.agree_read {cs : Table CollectionRow} {ds : Table DocumentRow} {k : Catalog .textual}
    {a : Address} {h : Holding} {r : CollectionRow} (hk : Keeps cs ds k) (hh : (a, h) ∈ k.holdings)
    (hr : r.Keeps a h.descriptor) (step : String) :
    readCollection step (countOf (addressOf r) ds) r = Catalog.snapshot .textual a h := by
  rw [readCollection_eq hr, CollectionRow.addressOf_eq hr.place, hk.countOf_eq hh]
  rfl

/-- **The two tables answer every operation as the catalog they keep.** -/
theorem refinement : Backend.Refinement Shows where
  hasCollection := by
    rintro _ k a ⟨cs, ds, rfl, hk⟩ -
    exact hk.hasCollection_eq a
  collection? := by
    rintro _ k a ⟨cs, ds, rfl, hk⟩ -
    refine .option_rel_of_eq (Collection.Alike.refl fun _ => rfl) ?_
    show collection? a ⟨some cs, some ds⟩ = Catalog.collection? a k
    unfold Tables.collection? Catalog.collection?
    simp only [collectionTable, documentTable, bind, Except.bind]
    have hfind := hk.find?_collection a
    cases hh : Keyed.find? a k.holdings with
    | none =>
      rw [hh] at hfind
      generalize cs.rows.find? _ = o at hfind ⊢
      cases hfind
      rfl
    | some h =>
      rw [hh] at hfind
      generalize cs.rows.find? _ = o at hfind ⊢
      cases hfind with
      | some hr => exact congrArg (Except.map some) (hk.agree_read (Keyed.mem_of_find? hh) hr _)
  create := by
    rintro _ k a c d ⟨cs, ds, rfl, hk⟩ - hcd
    obtain rfl := hcd.eq
    show Agree Shows (create a c ⟨some cs, some ds⟩) (Catalog.create a c k)
    unfold Tables.create Catalog.create
    rw [hk.hasCollection_eq]
    cases hc : Keyed.contains a k.holdings with
    | true => exact .error _
    | false =>
      have hany := (hk.any_collection a).trans hc
      simp only [collectionTable, Except.bind, bind, hany]
      exact .ok ⟨_, _, rfl, hk.create (Keyed.contains_eq_false.mp hc) c⟩
  redescribe := by
    rintro _ k a c d ⟨cs, ds, rfl, hk⟩ - hcd
    obtain rfl := hcd.eq
    show Agree Shows (redescribe a c ⟨some cs, some ds⟩)
      ((Catalog.holding a k).map fun h => k.store a { h with descriptor := c })
    unfold Tables.redescribe Catalog.holding
    simp only [collectionTable, Except.bind, bind, hk.any_collection, Keyed.contains]
    cases hh : Keyed.find? a k.holdings with
    | none => exact .error _
    | some h => exact .ok ⟨_, _, rfl, hk.redescribe hh c⟩
  drop := by
    rintro _ k a ⟨cs, ds, rfl, hk⟩ -
    exact .ok ⟨hk.any_collection a, _, _, rfl, hk.drop a⟩
  collections := by
    rintro _ k partition ⟨cs, ds, rfl, hk⟩ -
    show Agree _ (List.mapM _ (((cs.rows.filter fun r => r.partition = partition).mergeSort
      fun r s => r.seq ≤ s.seq))) _
    -- rows stand by their numbers, so ordering them by number leaves them where they are
    rw [hk.collectionsNumbered.mergeSort_filter]
    refine Agree.mapM (fun r ah hr => ?_) (List.rel_filter (fun r ah hr => ?_) hk.collections_mem)
    · rw [hk.agree_read hr.1 hr.2]
      exact .refl (Collection.Alike.refl fun _ => rfl) _
    · simp only [decide_eq_true_eq, hr.2.place.1]
  hasDocument := by
    rintro _ k a id ⟨cs, ds, rfl, hk⟩ -
    show (do require a ⟨some cs, some ds⟩; Except.ok (ds.rows.any fun r => r.At a id)) =
      (Catalog.holding a k).map fun h => (Documents.find? id h.documents).isSome
    rw [hk.require_eq]
    unfold Catalog.holding
    cases hh : Keyed.find? a k.holdings with
    | none => rfl
    | some h => exact congrArg Except.ok (hk.any_document hh id)
  document? := by
    rintro _ k a id ⟨cs, ds, rfl, hk⟩ -
    show document? a id ⟨some cs, some ds⟩ = Catalog.holding a k >>= Catalog.read? id
    unfold Tables.document? Catalog.holding
    rw [hk.require_eq]
    unfold Catalog.holding
    cases hh : Keyed.find? a k.holdings with
    | none => rfl
    | some h =>
      have hfind := hk.find?_document hh id
      simp only [documentTable, Except.map, bind, Except.bind]
      unfold Catalog.read?
      generalize ds.rows.find? _ = o at hfind ⊢
      generalize Documents.find? id h.documents = d at hfind ⊢
      cases hfind with
      | none => rfl
      | some hr => exact congrArg (Except.map some) (readDocument_eq hr)
  put := by
    rintro _ k a d ⟨cs, ds, rfl, hk⟩ -
    show Agree Shows (put a d ⟨some cs, some ds⟩) ((Catalog.holding a k).map _)
    unfold Tables.put
    rw [hk.require_eq]
    unfold Catalog.holding
    cases hh : Keyed.find? a k.holdings with
    | none => exact .error _
    | some h => exact .ok ⟨_, _, rfl, hk.upsert hh d⟩
  remove := by
    rintro _ k a id ⟨cs, ds, rfl, hk⟩ -
    show Agree _ (remove a id ⟨some cs, some ds⟩) ((Catalog.holding a k).map _)
    unfold Tables.remove
    rw [hk.require_eq]
    unfold Catalog.holding
    cases hh : Keyed.find? a k.holdings with
    | none => exact .error _
    | some h => exact .ok ⟨hk.any_document hh id, _, _, rfl, hk.remove hh id⟩
  documents := by
    rintro _ k a ⟨cs, ds, rfl, hk⟩ -
    show (do require a ⟨some cs, some ds⟩; (rowsOf a ds).mapM readDocument) =
      Catalog.holding a k >>= fun h => h.documents.mapM Fidelity.textual.document
    rw [hk.require_eq, hk.rowsOf_eq]
    unfold Catalog.holding
    cases hh : Keyed.find? a k.holdings with
    | none => rfl
    | some h =>
      have hrows := Agree.mapM (f := readDocument) (g := Fidelity.textual.document)
        (fun r d hr => Agree.eq_iff.mpr (readDocument_eq hr)) (hk.documents_of_find? hh)
      rw [List.forall₂_eq_eq_eq] at hrows
      exact Agree.eq_iff.mp hrows
  count := by
    rintro _ k a ⟨cs, ds, rfl, hk⟩ -
    show (do require a ⟨some cs, some ds⟩; Except.ok (countOf a ds)) =
      (Catalog.holding a k).map fun h => h.documents.length
    rw [hk.require_eq]
    unfold Catalog.holding
    cases hh : Keyed.find? a k.holdings with
    | none => rfl
    | some h => exact congrArg Except.ok (hk.countOf_eq (Keyed.mem_of_find? hh))

end Tables

end SemanticStore
