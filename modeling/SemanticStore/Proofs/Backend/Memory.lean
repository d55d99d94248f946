import Mathlib.Data.List.Nodup
import Mathlib.Order.Basic
import SemanticStore.Backend.Memory
import SemanticStore.Proofs.Backend.Catalog
import SemanticStore.Proofs.Backend.Simulation

/-!
# The backend in memory is a catalog

* `Shelf.Sound`: the sequence numbers of a shelf ascend below the next one, and each id leads to the
  number of its document. Under it the operations of a shelf are those of its list of documents.
* `Memory.Sound`: every shelf is sound, and shelves stand in the order of their creation.
* `Memory.refinement`: sound states answer every operation as the catalog they show, and the
  operations keep soundness.
-/

namespace SemanticStore

namespace Shelf

/-! ### Shelves -/

/-- What every shelf is like. -/
structure Sound (s : Shelf) : Prop where
  /-- documents stand by sequence number -/
  ascending : s.order.Pairwise fun p q => p.1 < q.1
  below : ∀ p ∈ s.order, p.1 < s.nextSeq
  /-- an id leads to the sequence number of the document with it -/
  positions : ∀ id, Keyed.find? id s.positions = (s.order.find? fun p => p.2.id = id).map (·.1)
  keys : (s.positions.map (·.1)).Nodup
  ids : (s.order.map (·.2.id)).Nodup

theorem sound_empty (c : Collection) (n : ℕ) : (empty c n).Sound where
  ascending := .nil
  below := by simp [empty]
  positions := by simp [empty]
  keys := .nil
  ids := .nil

variable {s : Shelf} {d : Document} {id : String} {p q : ℕ × Document}

lemma documents_find? (s : Shelf) (id : String) :
    Documents.find? id s.documents = (s.order.find? fun p => p.2.id = id).map (·.2) := by
  unfold Documents.find? documents
  rw [List.find?_map]
  rfl

theorem Sound.numbers_nodup (h : s.Sound) : (s.order.map (·.1)).Nodup := by
  rw [List.Nodup, List.pairwise_map]
  exact h.ascending.imp fun hlt => Nat.ne_of_lt hlt

theorem Sound.ids_nodup (h : s.Sound) : (s.documents.map (·.id)).Nodup := by
  unfold documents
  rw [List.map_map]
  exact h.ids

theorem Sound.number_eq_iff (h : s.Sound) (hp : p ∈ s.order) (hq : q ∈ s.order) :
    p.1 = q.1 ↔ p.2.id = q.2.id := by
  constructor
  · intro heq
    rw [List.inj_on_of_nodup_map h.numbers_nodup hp hq heq]
  · intro heq
    rw [List.inj_on_of_nodup_map h.ids hp hq heq]

theorem Sound.contains_positions (h : s.Sound) (id : String) :
    Keyed.contains id s.positions = (Documents.find? id s.documents).isSome := by
  unfold Keyed.contains
  rw [h.positions, documents_find?, Option.isSome_map, Option.isSome_map]

theorem Sound.document?_eq (h : s.Sound) (id : String) :
    s.document? id = Documents.find? id s.documents := by
  unfold document?
  rw [h.positions, documents_find?]
  cases hf : s.order.find? fun p => p.2.id = id with
  | none => rfl
  | some p =>
    have hp : (p.1, p.2) ∈ s.order := List.mem_of_find?_eq_some hf
    simp only [Option.map_some, Option.bind_some]
    exact Keyed.find?_of_mem h.numbers_nodup hp

/-! ### Putting a document on a shelf -/

/-- In a list with ascending numbers, writing to a number that is there rewrites that entry. -/
lemma putAscending_eq_map {l : List (ℕ × Document)} (hl : l.Pairwise fun p q => p.1 < q.1)
    (hp : p ∈ l) (d : Document) :
    Keyed.putAscending p.1 d l = l.map fun q => if q.1 = p.1 then (p.1, d) else q := by
  induction l with
  | nil => simp at hp
  | cons q l ih =>
    obtain ⟨hq, hl⟩ := List.pairwise_cons.mp hl
    rw [List.map_cons]
    rcases List.mem_cons.mp hp with rfl | hp
    · have hrest : ∀ x ∈ l, (if x.1 = p.1 then (p.1, d) else x) = x := fun x hx =>
        if_neg (Nat.ne_of_gt (hq x hx))
      rw [Keyed.putAscending, if_neg (Nat.lt_irrefl _), if_pos rfl, if_pos rfl,
        List.map_congr_left hrest, List.map_id']
    · have hlt := hq p hp
      rw [Keyed.putAscending, if_neg (by omega), if_neg (by omega), if_neg (by omega), ih hl hp]

/-- A document with a new id gets the next number. -/
lemma put_of_new (h : s.Sound) (hd : Documents.find? d.id s.documents = none) :
    s.put d = { s with
      nextSeq := s.nextSeq + 1
      order := s.order ++ [(s.nextSeq, d)]
      positions := s.positions ++ [(d.id, s.nextSeq)] } := by
  have hpos : Keyed.find? d.id s.positions = none := by
    rw [← Keyed.contains_eq_false, h.contains_positions, hd]
    rfl
  unfold put
  rw [hpos]
  simp only [Keyed.putAscending_of_above h.below, Keyed.put_of_find?_eq_none hpos]

/-- A document with a stored id takes the place and the number of the one with that id. -/
lemma put_of_stored (h : s.Sound) (hp : s.order.find? (fun p => p.2.id = d.id) = some p) :
    s.put d = { s with order := s.order.map fun q => if q.2.id = d.id then (q.1, d) else q } := by
  have hmem := List.mem_of_find?_eq_some hp
  have hid : p.2.id = d.id := by simpa using List.find?_some hp
  have hpos : Keyed.find? d.id s.positions = some p.1 := by rw [h.positions, hp]; rfl
  have hmap : (s.order.map fun q => if q.1 = p.1 then (p.1, d) else q) =
      s.order.map fun q => if q.2.id = d.id then (q.1, d) else q := by
    refine List.map_congr_left fun q hq => ?_
    by_cases hqp : q.1 = p.1
    · have hqd : q.2.id = d.id := hid ▸ (h.number_eq_iff hq hmem).mp hqp
      rw [if_pos hqp, if_pos hqd, hqp]
    · have hqd : q.2.id ≠ d.id := fun heq => hqp ((h.number_eq_iff hq hmem).mpr (heq.trans hid.symm))
      rw [if_neg hqp, if_neg hqd]
  unfold put
  rw [hpos]
  simp only [putAscending_eq_map h.ascending hmem, hmap]

theorem Sound.documents_put (h : s.Sound) (d : Document) :
    (s.put d).documents = Documents.put d s.documents := by
  cases hf : s.order.find? fun p => p.2.id = d.id with
  | none =>
    have hd : Documents.find? d.id s.documents = none := by rw [documents_find?, hf]; rfl
    rw [put_of_new h hd, Documents.put_of_find?_eq_none hd]
    simp [documents]
  | some p =>
    have hd : Documents.find? d.id s.documents = some p.2 := by rw [documents_find?, hf]; rfl
    rw [put_of_stored h hf, Documents.put_eq_map h.ids_nodup hd]
    unfold documents
    rw [List.map_map, List.map_map]
    refine List.map_congr_left fun q _ => ?_
    simp only [Function.comp_apply]
    split <;> rfl

theorem Sound.put (h : s.Sound) (d : Document) : (s.put d).Sound := by
  cases hf : s.order.find? fun p => p.2.id = d.id with
  | none =>
    have hd : Documents.find? d.id s.documents = none := by rw [documents_find?, hf]; rfl
    have hpos : Keyed.find? d.id s.positions = none := by rw [h.positions, hf]; rfl
    rw [put_of_new h hd]
    refine ⟨?_, ?_, fun id => ?_, ?_, ?_⟩
    · rw [List.pairwise_append]
      refine ⟨h.ascending, List.pairwise_singleton .., fun p hp q hq => ?_⟩
      obtain rfl := List.mem_singleton.mp hq
      exact h.below p hp
    · intro p hp
      rcases List.mem_append.mp hp with hp | hp
      · exact Nat.lt_succ_of_lt (h.below p hp)
      · obtain rfl := List.mem_singleton.mp hp
        exact Nat.lt_succ_self _
    · simp only [Keyed.find?_append, List.find?_append, h.positions, Option.map_or, Keyed.find?_cons,
        Keyed.find?_nil, List.find?_cons, List.find?_nil]
      by_cases hid : d.id = id <;> simp [hid]
    · rw [← Keyed.put_of_find?_eq_none hpos]
      exact Keyed.nodup_put h.keys
    · have := Documents.nodup_put (d := d) h.ids_nodup
      rw [Documents.put_of_find?_eq_none hd] at this
      simpa [documents, Function.comp_def] using this
  | some p =>
    have hid (q : ℕ × Document) : (if q.2.id = d.id then (q.1, d) else q).2.id = q.2.id := by
      split
      · rename_i hq
        exact hq.symm
      · rfl
    have hnum (q : ℕ × Document) : (if q.2.id = d.id then (q.1, d) else q).1 = q.1 := by
      split <;> rfl
    rw [put_of_stored h hf]
    refine ⟨?_, ?_, fun id => ?_, h.keys, ?_⟩
    · rw [List.pairwise_map]
      exact h.ascending.imp fun hlt => by rwa [hnum, hnum]
    · intro q hq
      obtain ⟨q', hq', rfl⟩ := List.mem_map.mp hq
      rw [hnum]
      exact h.below q' hq'
    · rw [h.positions, List.find?_map, Option.map_map]
      simp only [Function.comp_def, hid, hnum]
    · rw [List.map_map]
      simpa only [Function.comp_def, hid] using h.ids

/-! ### Taking a document off a shelf -/

lemma remove_of_stored (h : s.Sound) (hp : s.order.find? (fun p => p.2.id = id) = some p) :
    s.remove id = (true, { s with
      order := s.order.filter fun q => q.2.id ≠ id
      positions := Keyed.erase id s.positions }) := by
  have hmem := List.mem_of_find?_eq_some hp
  have hid : p.2.id = id := by simpa using List.find?_some hp
  have hpos : Keyed.find? id s.positions = some p.1 := by rw [h.positions, hp]; rfl
  have herase : Keyed.erase p.1 s.order = s.order.filter fun q => q.2.id ≠ id := by
    refine List.filter_congr fun q hq => ?_
    simp only [ne_eq, decide_not, h.number_eq_iff hq hmem, hid]
  unfold remove
  rw [hpos]
  simp only [herase]

lemma remove_of_absent (h : s.Sound) (hp : s.order.find? (fun p => p.2.id = id) = none) :
    s.remove id = (false, s) := by
  unfold remove
  rw [h.positions, hp]
  rfl

theorem Sound.remove_fst (h : s.Sound) (id : String) :
    (s.remove id).1 = (Documents.find? id s.documents).isSome := by
  rw [documents_find?]
  cases hf : s.order.find? fun p => p.2.id = id with
  | none => rw [remove_of_absent h hf]; rfl
  | some p => rw [remove_of_stored h hf]; rfl

theorem Sound.documents_remove (h : s.Sound) (id : String) :
    (s.remove id).2.documents = Documents.erase id s.documents := by
  unfold Documents.erase documents
  rw [List.filter_map]
  cases hf : s.order.find? fun p => p.2.id = id with
  | none =>
    have hall : ∀ q ∈ s.order, ((fun d : Document => decide (d.id ≠ id)) ∘ (·.2)) q = true := by
      intro q hq
      simpa using List.find?_eq_none.mp hf q hq
    rw [remove_of_absent h hf, List.filter_eq_self.mpr hall]
  | some p => rw [remove_of_stored h hf]; rfl

theorem Sound.remove (h : s.Sound) (id : String) : (s.remove id).2.Sound := by
  cases hf : s.order.find? fun p => p.2.id = id with
  | none => rw [remove_of_absent h hf]; exact h
  | some p =>
    rw [remove_of_stored h hf]
    refine ⟨h.ascending.filter _, fun q hq => h.below q (List.mem_filter.mp hq).1, fun id' => ?_,
      Keyed.nodup_erase h.keys, h.ids.sublist (List.filter_sublist.map _)⟩
    dsimp only
    rw [List.find?_filter]
    by_cases hid : id' = id
    · subst hid
      rw [Keyed.find?_erase_self, Eq.comm, Option.map_eq_none_iff, List.find?_eq_none]
      simp
    · rw [Keyed.find?_erase_of_ne hid, h.positions]
      congr 2
      funext q
      by_cases hq : q.2.id = id' <;> simp [hq, hid]

end Shelf

namespace Memory

/-! ### The whole memory -/

/-- What every state of the memory is like. -/
structure Sound (m : Memory) : Prop where
  addresses : (m.shelves.map (·.1)).Nodup
  shelves : ∀ a s, (a, s) ∈ m.shelves → s.Sound
  /-- shelves stand in the order of their creation -/
  ascending : m.shelves.Pairwise fun p q => p.2.createdSeq < q.2.createdSeq
  below : ∀ p ∈ m.shelves, p.2.createdSeq < m.nextCreatedSeq

/-- What a shelf holds. -/
def holdingOf (s : Shelf) : Holding := ⟨s.descriptor, s.documents⟩

lemma snapshot_holdingOf (a : Address) (s : Shelf) :
    Catalog.snapshot .exact a (holdingOf s) = .ok s.snapshot := by
  simp [Catalog.snapshot, Fidelity.collection, holdingOf, Shelf.snapshot, Shelf.documents, Except.map]

/-- The catalog that a state shows. -/
def view (m : Memory) : Catalog .exact := ⟨m.shelves.map fun p => (p.1, holdingOf p.2)⟩

/-- A sound state and the catalog it shows. -/
def Shows (m : Memory) (k : Catalog .exact) : Prop := m.Sound ∧ m.view = k

theorem shows_empty : Shows empty (.empty .exact) :=
  ⟨⟨.nil, by simp [empty], .nil, by simp [empty]⟩, rfl⟩

variable {m : Memory} {a : Address} {s s' : Shelf}

@[simp] lemma find?_view (m : Memory) (a : Address) :
    Keyed.find? a m.view.holdings = (Keyed.find? a m.shelves).map holdingOf :=
  Keyed.find?_map holdingOf

@[simp] lemma contains_view (m : Memory) (a : Address) :
    Keyed.contains a m.view.holdings = Keyed.contains a m.shelves := Keyed.contains_map holdingOf

lemma holding_view (m : Memory) (a : Address) :
    Catalog.holding a m.view = (shelf a m).map holdingOf := by
  unfold Catalog.holding shelf
  rw [find?_view]
  cases Keyed.find? a m.shelves <;> rfl

lemma view_reshelve (a : Address) (s : Shelf) (m : Memory) :
    (m.reshelve a s).view = m.view.store a (holdingOf s) := by
  unfold view reshelve Catalog.store
  rw [← Keyed.put_map holdingOf]

lemma shelf_eq_ok : shelf a m = .ok s ↔ Keyed.find? a m.shelves = some s := by
  unfold shelf
  cases Keyed.find? a m.shelves <;> simp

theorem Sound.shelf (h : m.Sound) (hs : Memory.shelf a m = .ok s) : s.Sound :=
  h.shelves a s (Keyed.mem_of_find? (shelf_eq_ok.mp hs))

/-- Putting a changed shelf back keeps soundness, if it is a sound shelf made at the same time. -/
theorem Sound.reshelve (h : m.Sound) (hs : Memory.shelf a m = .ok s) (hs' : s'.Sound)
    (hc : s'.createdSeq = s.createdSeq) : (m.reshelve a s').Sound := by
  have hfind := shelf_eq_ok.mp hs
  -- the shelves were created at the same times, in the same order
  have hseq : (Keyed.put a s' m.shelves).map (·.2.createdSeq) = m.shelves.map (·.2.createdSeq) := by
    have hl := h.addresses
    clear h hs
    generalize m.shelves = l at hfind hl ⊢
    induction l with
    | nil => simp at hfind
    | cons p l ih =>
      rw [Keyed.find?_cons] at hfind
      rw [Keyed.put_cons]
      split at hfind
      · rename_i hp
        obtain rfl := Option.some.inj hfind
        rw [if_pos hp, List.map_cons, List.map_cons, hc]
      · rename_i hp
        rw [if_neg hp, List.map_cons, List.map_cons, ih hfind (List.nodup_cons.mp hl).2]
  refine ⟨Keyed.nodup_put h.addresses, fun b t hm => ?_, ?_, fun p hp => ?_⟩
  · rcases Keyed.mem_put hm with heq | hm
    · cases heq
      exact hs'
    · exact h.shelves b t hm
  · have := h.ascending
    rw [← List.pairwise_map (f := fun p : Address × Shelf => p.2.createdSeq) (R := (· < ·))] at this ⊢
    exact hseq ▸ this
  · rcases Keyed.mem_put hp with rfl | hp
    · exact hc ▸ h.below (a, s) (Keyed.mem_of_find? hfind)
    · exact h.below p hp

theorem Sound.create (h : m.Sound) (hn : Keyed.find? a m.shelves = none) (c : Collection) :
    Sound ⟨m.shelves ++ [(a, .empty c m.nextCreatedSeq)], m.nextCreatedSeq + 1⟩ := by
  refine ⟨?_, fun b t hm => ?_, ?_, fun p hp => ?_⟩
  · rw [← Keyed.put_of_find?_eq_none hn]
    exact Keyed.nodup_put h.addresses
  · rcases List.mem_append.mp hm with hm | hm
    · exact h.shelves b t hm
    · cases List.mem_singleton.mp hm
      exact Shelf.sound_empty c _
  · rw [List.pairwise_append]
    refine ⟨h.ascending, List.pairwise_singleton .., fun p hp q hq => ?_⟩
    obtain rfl := List.mem_singleton.mp hq
    exact h.below p hp
  · rcases List.mem_append.mp hp with hp | hp
    · exact Nat.lt_succ_of_lt (h.below p hp)
    · obtain rfl := List.mem_singleton.mp hp
      exact Nat.lt_succ_self _

theorem Sound.erase (h : m.Sound) (a : Address) :
    Sound { m with shelves := Keyed.erase a m.shelves } :=
  ⟨Keyed.nodup_erase h.addresses, fun b t hm => h.shelves b t (Keyed.mem_erase.mp hm).1,
    h.ascending.filter _, fun p hp => h.below p (Keyed.mem_erase.mp hp).1⟩

/-- The shelves of a partition stand in the order in which they are listed. -/
theorem Sound.shelvesOf (h : m.Sound) (partition : String) :
    m.shelvesOf partition = (m.shelves.filter fun p => p.1.partition = partition).map (·.2) := by
  unfold Memory.shelvesOf
  refine List.mergeSort_of_pairwise ?_
  rw [List.pairwise_map]
  exact (h.ascending.filter _).imp fun hlt => decide_eq_true (Nat.le_of_lt hlt)

/-! ### The refinement -/

lemma agree_reshelve {k : Catalog .exact} (h : Shows m k) (f : Shelf → Shelf) (g : Holding → Holding)
    (hf : ∀ s, s.Sound → (f s).Sound ∧ (f s).createdSeq = s.createdSeq ∧
      holdingOf (f s) = g (holdingOf s)) :
    Agree Shows ((shelf a m).map fun s => m.reshelve a (f s))
      ((Catalog.holding a k).map fun h => k.store a (g h)) := by
  obtain ⟨hm, rfl⟩ := h
  rw [holding_view]
  cases hs : shelf a m with
  | error e => exact .error e
  | ok s =>
    obtain ⟨hsound, hseq, hview⟩ := hf s (hm.shelf hs)
    exact .ok ⟨hm.reshelve hs hsound hseq, by rw [view_reshelve, hview]⟩

/-- **The memory answers every operation as the catalog it shows.** -/
theorem refinement : Backend.Refinement Shows where
  hasCollection := by
    rintro m _ a ⟨-, rfl⟩ -
    exact congrArg _ (contains_view m a).symm
  collection? := by
    rintro m _ a ⟨-, rfl⟩ -
    refine .option_rel_of_eq (Collection.Alike.refl fun _ => rfl) ?_
    show _ = Catalog.collection? a m.view
    unfold Catalog.collection?
    rw [find?_view]
    cases hs : Keyed.find? a m.shelves with
    | none => simp [Backend.collection?, hs]
    | some s => simp [Backend.collection?, hs, snapshot_holdingOf, Except.map]
  create := by
    rintro m _ a c d ⟨hm, rfl⟩ - hcd
    obtain rfl := hcd.eq
    show Agree Shows (create a c m) (Catalog.create a c m.view)
    unfold create Catalog.create
    rw [contains_view]
    cases hc : Keyed.contains a m.shelves with
    | true => exact .error _
    | false =>
      have hn := Keyed.contains_eq_false.mp hc
      rw [if_neg Bool.false_ne_true, if_neg Bool.false_ne_true, Keyed.put_of_find?_eq_none hn]
      exact .ok ⟨hm.create hn c, by simp [view, holdingOf, Shelf.empty, Shelf.documents]⟩
  redescribe := by
    rintro m k a c d h - hcd
    obtain rfl := hcd.eq
    exact agree_reshelve h _ (fun h => { h with descriptor := c }) fun s hs =>
      ⟨⟨hs.ascending, hs.below, hs.positions, hs.keys, hs.ids⟩, rfl, rfl⟩
  drop := by
    rintro m _ a ⟨hm, rfl⟩ -
    refine .ok ⟨(contains_view m a).symm, hm.erase a, ?_⟩
    exact congrArg Catalog.mk (Keyed.erase_map holdingOf).symm
  collections := by
    rintro m _ partition ⟨hm, rfl⟩ -
    refine .forall₂_of_eq (Collection.Alike.refl fun _ => rfl) ?_
    simp only [Backend.collections, hm.shelvesOf, view, List.filter_map, List.mapM_map,
      Function.comp_def, List.map_map]
    exact (mapM_eq_ok fun p _ => snapshot_holdingOf p.1 p.2).symm
  hasDocument := by
    rintro m _ a id ⟨hm, rfl⟩ -
    simp only [Backend.hasDocument, holding_view]
    cases hs : shelf a m with
    | error e => rfl
    | ok s => simp [Except.map, (hm.shelf hs).contains_positions, holdingOf]
  document? := by
    rintro m _ a id ⟨hm, rfl⟩ -
    simp only [Backend.document?, holding_view]
    cases hs : shelf a m with
    | error e => rfl
    | ok s =>
      show Except.ok (s.document? id) = Catalog.read? id (holdingOf s)
      rw [(hm.shelf hs).document?_eq]
      unfold Catalog.read? holdingOf
      cases Documents.find? id s.documents <;> rfl
  put := by
    rintro m k a d h -
    exact agree_reshelve h _ (fun h => { h with documents := Documents.put d h.documents })
      fun s hs => ⟨hs.put d, by unfold Shelf.put; split <;> rfl,
        by simp only [holdingOf, hs.documents_put]; unfold Shelf.put; split <;> rfl⟩
  remove := by
    rintro m _ a id ⟨hm, rfl⟩ -
    have hrest (s : Shelf) : (s.remove id).2.createdSeq = s.createdSeq ∧
        (s.remove id).2.descriptor = s.descriptor := by
      unfold Shelf.remove
      split <;> exact ⟨rfl, rfl⟩
    simp only [Backend.remove, holding_view]
    cases hs : shelf a m with
    | error e => exact .error e
    | ok s =>
      have hsound := hm.shelf hs
      refine .ok ⟨hsound.remove_fst id, hm.reshelve hs (hsound.remove id) (hrest s).1, ?_⟩
      rw [view_reshelve]
      simp only [holdingOf, hsound.documents_remove, (hrest s).2]
  documents := by
    rintro m _ a ⟨hm, rfl⟩ -
    simp only [Backend.documents, holding_view]
    cases hs : shelf a m with
    | error e => rfl
    | ok s =>
      have := mapM_eq_ok (f := Fidelity.exact.document) (g := id) (l := s.documents) fun d _ => rfl
      rw [List.map_id] at this
      exact this.symm
  count := by
    rintro m _ a ⟨hm, rfl⟩ -
    simp only [Backend.count, holding_view]
    cases hs : shelf a m with
    | error e => rfl
    | ok s => simp [Except.map, holdingOf, Shelf.documents]

end Memory

end SemanticStore
