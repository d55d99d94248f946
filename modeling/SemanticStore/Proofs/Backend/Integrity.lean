import SemanticStore.Proofs.Backend.Chronicle
import SemanticStore.Proofs.Timestamp

/-!
# Integrity of the two tables

Nothing but the operations themselves ties the rows of documents to those of collections, and four
operations count the documents of a collection in ways of their own. `Tables.integrity_after` shows
that the tables stay in order over every run that began with an empty database.
-/

namespace SemanticStore.Tables

open Backend (Request Has Arrived after)

variable {cs : Table CollectionRow} {ds : Table DocumentRow} {k : Catalog .textual} {a : Address}
  {c : CollectionRow} {rs : List Request}

/-! ### Keys -/

lemma map_eq_map_of_forall₂ {α β γ : Type} {f : α → γ} {g : β → γ} {l : List α} {l' : List β}
    (h : List.Forall₂ (fun a b => f a = g b) l l') : l.map f = l'.map g := by
  have hmap : List.Forall₂ (· = ·) (l.map f) (l'.map g) := by
    rwa [List.forall₂_map_left_iff, List.forall₂_map_right_iff]
  rwa [List.forall₂_eq_eq_eq] at hmap

theorem Keeps.addresses_eq (hk : Keeps cs ds k) :
    cs.rows.map addressOf = k.holdings.map (·.1) :=
  map_eq_map_of_forall₂ <|
    hk.collections.imp fun _ _ hr => CollectionRow.addressOf_eq hr.place

theorem Keeps.nodup_collections (hk : Keeps cs ds k) : (cs.rows.map addressOf).Nodup :=
  hk.addresses_eq ▸ hk.sound.addresses

theorem Keeps.exists_collection (hk : Keeps cs ds k) {r : DocumentRow} (hr : r ∈ ds.rows) :
    ∃ c ∈ cs.rows, addressOf c = r.address := by
  obtain ⟨a, ha, hra⟩ := hk.owned r hr
  rw [← hk.addresses_eq] at ha
  obtain ⟨c, hc, rfl⟩ := List.mem_map.mp ha
  exact ⟨c, hc, (DocumentRow.at_iff.mp (show r.At _ r.id from ⟨hra, rfl⟩)).1.symm⟩

theorem Keeps.nodup_documents (hk : Keeps cs ds k) :
    (ds.rows.map fun r => (r.address, r.id)).Nodup := by
  refine List.pairwise_map.mpr (List.pairwise_iff_forall_sublist.mpr fun {r s} hrs heq => ?_)
  obtain ⟨haddress, hid⟩ := Prod.mk.inj heq
  -- two rows with one key would both be among those of one collection
  obtain ⟨a, ha, hra⟩ := hk.owned r (hrs.mem (by simp))
  obtain ⟨⟨a, h⟩, hh, rfl⟩ := List.mem_map.mp ha
  have hsa : s.In a := by
    have hr := DocumentRow.at_iff.mp (show r.At a r.id from ⟨hra, rfl⟩)
    exact (DocumentRow.at_iff.mpr ⟨haddress ▸ hr.1, rfl⟩ : s.At a s.id).1
  have hids : ((ds.rows.filter fun r => r.In a).map (·.id)).Nodup := by
    rw [map_eq_map_of_forall₂ ((hk.documents a h hh).imp fun _ _ hr => hr.id)]
    exact hk.sound.ids a h hh
  have hpair : [r, s].Sublist (ds.rows.filter fun r => r.In a) := by
    simpa [hra, hsa] using hrs.filter fun r => r.In a
  have htwice := hids.sublist (hpair.map (·.id))
  simp [hid] at htwice

theorem Keeps.find?_eq (hk : Keeps cs ds k) (hc : c ∈ cs.rows) :
    (cs.rows.find? fun r => r.At (addressOf c)) = some c := by
  have hself : c.At (addressOf c) := ⟨rfl, rfl⟩
  cases hfind : cs.rows.find? fun r => r.At (addressOf c) with
  | none => exact absurd hself (by simpa using List.find?_eq_none.mp hfind c hc)
  | some b =>
    have hat : b.At (addressOf c) := by simpa using List.find?_some hfind
    rw [List.inj_on_of_nodup_map hk.nodup_collections (List.mem_of_find?_eq_some hfind) hc
      (CollectionRow.addressOf_eq hat)]

/-! ### Counts -/

lemma require_of_mem (hc : c ∈ cs.rows) : require (addressOf c) ⟨some cs, some ds⟩ = .ok () := by
  have hany : (cs.rows.any fun r => r.At (addressOf c)) = true :=
    List.any_eq_true.mpr ⟨c, hc, decide_eq_true ⟨rfl, rfl⟩⟩
  rw [require_eq_ite, if_pos hany]

lemma countOf_eq_length (a : Address) (ds : Table DocumentRow) :
    countOf a ds = (rowsOf a ds).length := by
  unfold countOf rowsOf
  rw [List.length_mergeSort, List.countP_eq_length_filter]

lemma count_eq (hc : c ∈ cs.rows) : Backend.count (addressOf c) (⟨some cs, some ds⟩ : Tables) =
    .ok (rowsOf (addressOf c) ds).length := by
  show count _ _ = _
  unfold count
  rw [require_of_mem hc, ← countOf_eq_length]
  rfl

lemma documents_eq (hc : c ∈ cs.rows) :
    Backend.documents (addressOf c) (⟨some cs, some ds⟩ : Tables) =
      (rowsOf (addressOf c) ds).mapM readDocument := by
  show documentsOf _ _ = _
  unfold documentsOf
  rw [require_of_mem hc]
  rfl

lemma id_of_readDocument {r : DocumentRow} {d : Document} (h : readDocument r = .ok d) :
    r.id = d.id := by
  rw [readDocument_eq_decode] at h
  obtain ⟨e, -, h⟩ := bind_eq_ok_iff.mp h
  unfold Body.decode at h
  split at h
  · cases h
    rfl
  · cases h

/-- What a descriptor that is read of a row tells: the name, the time and a number of documents. -/
structure Tells (c : CollectionRow) (n : ℕ) (described : Collection) : Prop where
  name : described.name = c.name
  createdAt : Timestamp.parse? c.createdAt = some described.createdAt
  count : described.count = n

/-- A request gave the collection a time in a year that is not written with four digits. -/
def Misdated (rs : List Request) (c : CollectionRow) : Prop :=
  ∃ q ∈ rs, ∃ t, givenTime? q = some t ∧ ¬ t.InEra ∧ c.createdAt = t.renderNumeric

/-- The row of a collection is read, or its time cannot be. -/
theorem Keeps.read_or_misdated (hk : Keeps cs ds k) (hdated : DatedBy rs cs) (hc : c ∈ cs.rows)
    (step : String) :
    (∃ d, readCollection step (countOf (addressOf c) ds) c = .ok d ∧
      Tells c (rowsOf (addressOf c) ds).length d) ∨
    Misdated rs c ∧ ∃ e, readCollection step (countOf (addressOf c) ds) c = .error e := by
  obtain ⟨⟨a, h⟩, -, hrow⟩ := exists_mem_of_forall₂ hk.collections hc
  rw [readCollection_eq hrow, countOf_eq_length]
  simp only [Fidelity.collection, ← hrow.createdAt]
  cases htime : Timestamp.parse? c.createdAt with
  | some t => exact .inl ⟨_, rfl, hrow.place.2.symm, htime, rfl⟩
  | none =>
    obtain ⟨q, hq, t, ht, heq⟩ := hdated c hc
    refine .inr ⟨⟨q, hq, t, ht, fun hera => ?_, heq⟩, _, rfl⟩
    rw [heq, Timestamp.parse?_renderNumeric t hera] at htime
    cases htime

/-- All that tells a number of documents of a collection tells the number of its rows. -/
structure Aligned (rs : List Request) (t : Tables) (ds : Table DocumentRow) (c : CollectionRow) :
    Prop where
  count : Backend.count (addressOf c) t = .ok (rowsOf (addressOf c) ds).length
  /-- a scan reads one document from each row -/
  scan : Backend.documents (addressOf c) t = (rowsOf (addressOf c) ds).mapM readDocument
  scanned : ∀ l, Backend.documents (addressOf c) t = .ok l →
    (rowsOf (addressOf c) ds).map (·.id) = l.map (·.id)
  described : (∃ d, Backend.collection? (addressOf c) t = .ok (some d) ∧
      Tells c (rowsOf (addressOf c) ds).length d) ∨
    Misdated rs c ∧ ∃ e, Backend.collection? (addressOf c) t = .error e

theorem Keeps.aligned (hk : Keeps cs ds k) (hdated : DatedBy rs cs) (hc : c ∈ cs.rows) :
    Aligned rs ⟨some cs, some ds⟩ ds c where
  count := count_eq hc
  scan := documents_eq hc
  scanned := by
    intro l hl
    rw [documents_eq hc] at hl
    exact map_eq_map_of_forall₂ ((forall₂_of_mapM_eq_ok hl).imp fun _ _ => id_of_readDocument)
  described := by
    show (∃ d, collection? _ _ = _ ∧ _) ∨ _ ∧ ∃ e, collection? _ _ = _
    unfold collection?
    simp only [collectionTable, documentTable, bind, Except.bind, hk.find?_eq hc]
    rcases hk.read_or_misdated hdated hc "Failed to read collection" with
      ⟨d, hd, htells⟩ | ⟨hmisdated, e, he⟩
    · rw [hd]
      exact .inl ⟨d, rfl, htells⟩
    · rw [he]
      exact .inr ⟨hmisdated, e, rfl⟩

/-- The collections of a partition are listed by the numbers of their rows. -/
def listedRows (p : String) (cs : Table CollectionRow) : List CollectionRow :=
  (cs.rows.filter fun r => r.partition = p).mergeSort fun r s => r.seq ≤ s.seq

theorem Keeps.listed (hk : Keeps cs ds k) (hdated : DatedBy rs cs) (p : String) :
    (∃ l, Backend.collections p (⟨some cs, some ds⟩ : Tables) = .ok l ∧
      List.Forall₂ (fun c d => Tells c (rowsOf (addressOf c) ds).length d) (listedRows p cs) l) ∨
    ∃ c ∈ listedRows p cs, Misdated rs c ∧
      ∃ e, Backend.collections p (⟨some cs, some ds⟩ : Tables) = .error e := by
  have hmem {c : CollectionRow} (hc : c ∈ listedRows p cs) : c ∈ cs.rows :=
    (List.mem_filter.mp (List.mem_mergeSort.mp hc)).1
  have heq : Backend.collections p (⟨some cs, some ds⟩ : Tables) = (listedRows p cs).mapM fun r =>
    readCollection "Failed to read collection row" (countOf (addressOf r) ds) r := rfl
  cases hl : Backend.collections p (⟨some cs, some ds⟩ : Tables) with
  | ok l =>
    have hread := (List.forall₂_and_left _ _).mpr
      ⟨fun c hc => hmem hc, forall₂_of_mapM_eq_ok (heq ▸ hl)⟩
    refine .inl ⟨l, rfl, hread.imp fun c d ⟨hc, hd⟩ => ?_⟩
    rcases hk.read_or_misdated hdated hc "Failed to read collection row" with
      ⟨d', hd', htells⟩ | ⟨-, e, he⟩
    · rw [hd] at hd'
      cases hd'
      exact htells
    · rw [hd] at he
      cases he
  | error e =>
    obtain ⟨c, hc, he⟩ := exists_of_mapM_eq_error (heq ▸ hl)
    rcases hk.read_or_misdated hdated (hmem hc) "Failed to read collection row" with
      ⟨d, hd, -⟩ | ⟨hmisdated, -⟩
    · rw [hd] at he
      cases he
    · exact .inr ⟨c, hc, hmisdated, e, rfl⟩

/-! ### Empty collections -/

/-- A collection that is there and holds nothing. -/
structure Vacant (a : Address) (t : Tables) : Prop where
  scan : Backend.documents a t = .ok []
  count : Backend.count a t = .ok 0

/-- No rows wait for a collection, so one that is created has none. -/
theorem Keeps.vacant_of_create (hk : Keeps cs ds k) {d : Collection} {t : Tables}
    (h : Backend.create a d (⟨some cs, some ds⟩ : Tables) = .ok t) : Vacant a t := by
  rw [create_eq] at h
  split at h
  · cases h
  · rename_i hany
    cases h
    set row : CollectionRow := ⟨cs.lastSeq + 1, a.partition, a.name, dimensionCell d.dimension,
      d.metric.name, d.createdAt.renderNumeric⟩
    set cs' : Table CollectionRow := ⟨cs.rows ++ [row], cs.lastSeq + 1⟩
    have hmem : row ∈ cs'.rows := List.mem_append_right _ (List.mem_singleton_self row)
    have hnone : Keyed.find? a k.holdings = none := by
      rw [hk.any_collection] at hany
      exact Keyed.contains_eq_false.mp (Bool.eq_false_iff.mpr hany)
    have hrows : rowsOf (addressOf row) ds = [] := (hk.rowsOf_eq a).trans (hk.filter_eq_nil hnone)
    show Vacant (addressOf row) _
    exact ⟨by rw [documents_eq hmem, hrows]; rfl, by rw [count_eq hmem, hrows]; rfl⟩

/-- A collection that was dropped can be created again. -/
theorem Keeps.recreated (hk : Keeps cs ds k) (a : Address) (d : Collection) :
    ∃ there s t, Backend.drop a (⟨some cs, some ds⟩ : Tables) = .ok (there, s) ∧
      Backend.create a d s = .ok t ∧ Vacant a t := by
  have hcreate : ∃ t, Backend.create a d
      (⟨some { cs with rows := cs.rows.filter fun r => ¬ r.At a },
        some { ds with rows := ds.rows.filter fun r => ¬ r.In a }⟩ : Tables) = .ok t := by
    rw [create_eq, if_neg (by simp)]
    exact ⟨_, rfl⟩
  obtain ⟨t, ht⟩ := hcreate
  exact ⟨_, _, t, rfl, ht, (hk.drop a).vacant_of_create ht⟩

/-! ### The whole -/

/-- What holds of the rows after a run. -/
structure Integrity (rs : List Request) (cs : Table CollectionRow) (ds : Table DocumentRow) :
    Prop where
  /-- no two collections have one partition and name -/
  collectionKeys : (cs.rows.map addressOf).Nodup
  /-- no two documents have one partition, collection and id -/
  documentKeys : (ds.rows.map fun r => (r.address, r.id)).Nodup
  /-- every document belongs to a collection -/
  owned : ∀ r ∈ ds.rows, ∃ c ∈ cs.rows, addressOf c = r.address
  /-- rows are numbered as their ids arrived -/
  chronicled : Chronicled rs ds
  /-- putting an id that is there moves no row -/
  overwriting : ∀ a d, Has a d.id (⟨some cs, some ds⟩ : Tables) →
    ∃ ds', Backend.put a d (⟨some cs, some ds⟩ : Tables) = .ok ⟨some cs, some ds'⟩ ∧
      numbering ds' = numbering ds
  /-- a collection that is created is empty -/
  created : ∀ a d t, Backend.create a d (⟨some cs, some ds⟩ : Tables) = .ok t → Vacant a t
  /-- a collection that was dropped can be created again, and is empty then -/
  recreated : ∀ a d, ∃ there s t, Backend.drop a (⟨some cs, some ds⟩ : Tables) = .ok (there, s) ∧
    Backend.create a d s = .ok t ∧ Vacant a t
  /-- all that counts the documents of a collection agrees -/
  aligned : ∀ c ∈ cs.rows, Aligned rs ⟨some cs, some ds⟩ ds c
  listed : ∀ p,
    (∃ l, Backend.collections p (⟨some cs, some ds⟩ : Tables) = .ok l ∧
      List.Forall₂ (fun c d => Tells c (rowsOf (addressOf c) ds).length d) (listedRows p cs) l) ∨
    ∃ c ∈ listedRows p cs, Misdated rs c ∧
      ∃ e, Backend.collections p (⟨some cs, some ds⟩ : Tables) = .error e

theorem Keeps.put_stored_eq (hk : Keeps cs ds k) {d : Document}
    (h : Has a d.id (⟨some cs, some ds⟩ : Tables)) :
    ∃ ds', Backend.put a d (⟨some cs, some ds⟩ : Tables) = .ok ⟨some cs, some ds'⟩ ∧
      numbering ds' = numbering ds := by
  obtain ⟨r, hr, hat⟩ := hk.has_iff.mp h
  obtain ⟨c, hc, haddress⟩ := hk.exists_collection hr
  rw [(DocumentRow.at_iff.mp hat).1] at haddress
  subst haddress
  rw [put_eq, require_of_mem hc]
  exact ⟨_, rfl, numbering_upsert_stored ⟨r, hr, hat⟩⟩

/-- **Whatever operations were carried out on an empty database, the two tables are in order.** -/
theorem integrity_after (rs : List Request) :
    ∃ cs ds, after rs empty = ⟨some cs, some ds⟩ ∧ Integrity rs cs ds := by
  obtain ⟨cs, ds, hafter, hdated, hchronicled⟩ := after_rows rs
  obtain ⟨k, hk⟩ := exists_keeps hafter
  exact ⟨cs, ds, hafter, {
    collectionKeys := hk.nodup_collections
    documentKeys := hk.nodup_documents
    owned := fun r hr => hk.exists_collection hr
    chronicled := hchronicled
    overwriting := fun a d h => hk.put_stored_eq h
    created := fun a d t h => hk.vacant_of_create h
    recreated := hk.recreated
    aligned := fun c hc => hk.aligned hdated hc
    listed := hk.listed hdated }⟩

end SemanticStore.Tables
