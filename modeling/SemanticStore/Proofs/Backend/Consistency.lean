import Mathlib.Data.Set.Function
import SemanticStore.Proofs.Backend.Memory
import SemanticStore.Proofs.Backend.Orderly

/-!
# The two maps of a shelf

The memory keeps the documents of a collection by number and their numbers by id, and its shelves in
no particular order. `Shelf.Consistent` says that the two maps of a shelf fit together, and
`Memory.Consistent` that besides all shelves were created at different times. The list of collections
in the order of their creation, each with its list of documents, is `Memory.catalog`.

* `Shelf.Consistent.bijOn`: the ids of the documents correspond to their numbers.
* `Memory.refinement_consistent`: a consistent memory answers every operation as its catalog.
* `Memory.represents_catalog`: consistency holds at the start and is kept by every operation, and
  under it a memory behaves as the list of lists of documents.
-/

namespace SemanticStore

/-! ### Sorting by a number -/

section Sorting

variable {α : Type} {l l' : List α}

lemma pairwise_mergeSort_number (f : α → ℕ) (l : List α) :
    (l.mergeSort fun x y => f x ≤ f y).Pairwise fun x y => f x ≤ f y := by
  refine (List.pairwise_mergeSort (fun x y z hxy hyz => ?_) (fun x y => ?_) l).imp of_decide_eq_true
  · exact decide_eq_true ((of_decide_eq_true hxy).trans (of_decide_eq_true hyz))
  · simpa using Nat.le_total (f x) (f y)

/-- Where numbers differ, sorting by them leads to one list. -/
theorem mergeSort_eq_of_perm {f : α → ℕ} (h : l.Perm l') (hl : l'.Pairwise fun x y => f x < f y) :
    (l.mergeSort fun x y => f x ≤ f y) = l' := by
  have hnodup : (l'.map f).Nodup := by
    rw [List.Nodup, List.pairwise_map]
    exact hl.imp Nat.ne_of_lt
  have hperm : (l.mergeSort fun x y => f x ≤ f y).Perm l' := (List.mergeSort_perm ..).trans h
  refine hperm.eq_of_pairwise (fun x y hx hy hxy hyx => ?_) (pairwise_mergeSort_number f l)
    (hl.imp Nat.le_of_lt)
  exact List.inj_on_of_nodup_map hnodup (hperm.mem_iff.mp hx) hy (Nat.le_antisymm hxy hyx)

end Sorting

namespace Shelf

/-! ### Shelves -/

/-- The two maps of a shelf fit together. -/
structure Consistent (s : Shelf) : Prop where
  /-- documents stand by number, and no number is there twice -/
  ascending : s.order.Pairwise fun p q => p.1 < q.1
  /-- no id is there twice -/
  keys : (s.positions.map (·.1)).Nodup
  /-- an id leads to a number just if the document with the number has the id -/
  leads : ∀ id n, Keyed.find? id s.positions = some n ↔ ∃ d, (n, d) ∈ s.order ∧ d.id = id
  below : ∀ p ∈ s.order, p.1 < s.nextSeq

namespace Consistent

variable {s : Shelf} {p q : ℕ × Document} {id : String}

theorem leads_mem (h : s.Consistent) (hp : p ∈ s.order) :
    Keyed.find? p.2.id s.positions = some p.1 :=
  (h.leads _ _).mpr ⟨p.2, hp, rfl⟩

theorem ids (h : s.Consistent) : (s.order.map (·.2.id)).Nodup := by
  rw [List.Nodup, List.pairwise_map]
  refine h.ascending.imp_of_mem fun {p q} hp hq hlt hid => ?_
  have hnum : some p.1 = some q.1 := by rw [← h.leads_mem hp, ← h.leads_mem hq, hid]
  exact Nat.ne_of_lt hlt (Option.some.inj hnum)

/-- **The ids of the documents correspond one to one to the numbers of the documents.** -/
theorem bijOn (h : s.Consistent) :
    Set.BijOn (fun id => Keyed.find? id s.positions) {id | id ∈ s.documents.map (·.id)}
      {n | ∃ p ∈ s.order, n = some p.1} := by
  have hid : ∀ id ∈ s.documents.map (·.id), ∃ p ∈ s.order, p.2.id = id := by
    intro id hmem
    unfold documents at hmem
    rw [List.map_map] at hmem
    exact List.mem_map.mp hmem
  refine ⟨fun id hmem => ?_, fun id hmem id' hmem' heq => ?_, ?_⟩
  · obtain ⟨p, hp, rfl⟩ := hid id hmem
    exact ⟨p, hp, h.leads_mem hp⟩
  · obtain ⟨p, hp, rfl⟩ := hid id hmem
    obtain ⟨q, hq, rfl⟩ := hid id' hmem'
    -- the document with the number has both ids
    have hpq : Keyed.find? q.2.id s.positions = some p.1 := heq.symm.trans (h.leads_mem hp)
    obtain ⟨d, hd, hdq⟩ := (h.leads _ _).mp hpq
    have hnodup : (s.order.map (·.1)).Nodup := by
      rw [List.Nodup, List.pairwise_map]
      exact h.ascending.imp Nat.ne_of_lt
    have hsame : (p.1, d) = p := List.inj_on_of_nodup_map hnodup hd hp rfl
    rw [← hdq, ← hsame]
  · rintro _ ⟨p, hp, rfl⟩
    refine ⟨p.2.id, ?_, h.leads_mem hp⟩
    exact List.mem_map_of_mem (f := fun d : Document => d.id) (List.mem_map_of_mem hp)

end Consistent

/-- Looking for the first document with an id is following the id. -/
theorem consistent_iff {s : Shelf} : s.Consistent ↔ s.Sound := by
  constructor
  · intro h
    refine ⟨h.ascending, h.below, fun id => ?_, h.keys, h.ids⟩
    cases hf : s.order.find? fun p => p.2.id = id with
    | some p =>
      have hid : p.2.id = id := by simpa using List.find?_some hf
      rw [← hid, h.leads_mem (List.mem_of_find?_eq_some hf)]
      rfl
    | none =>
      cases hp : Keyed.find? id s.positions with
      | none => rfl
      | some n =>
        obtain ⟨d, hd, hid⟩ := (h.leads id n).mp hp
        exact absurd hid (by simpa using List.find?_eq_none.mp hf (n, d) hd)
  · intro h
    refine ⟨h.ascending, h.keys, fun id n => ?_, h.below⟩
    rw [h.positions, Option.map_eq_some_iff]
    constructor
    · rintro ⟨p, hf, rfl⟩
      exact ⟨p.2, List.mem_of_find?_eq_some hf, by simpa using List.find?_some hf⟩
    · rintro ⟨d, hd, rfl⟩
      cases hf : s.order.find? fun p => p.2.id = d.id with
      | none =>
        have hne : d.id ≠ d.id := by simpa using List.find?_eq_none.mp hf (n, d) hd
        exact absurd rfl hne
      | some p =>
        have hid : p.2.id = d.id := by simpa using List.find?_some hf
        exact ⟨p, rfl, (h.number_eq_iff (List.mem_of_find?_eq_some hf) hd).mpr hid⟩

end Shelf

namespace Memory

/-! ### The whole memory -/

/-- The maps of all shelves fit together, and shelves were created at different times. -/
structure Consistent (m : Memory) : Prop where
  addresses : (m.shelves.map (·.1)).Nodup
  shelves : ∀ a s, (a, s) ∈ m.shelves → s.Consistent
  created : (m.shelves.map (·.2.createdSeq)).Nodup
  below : ∀ p ∈ m.shelves, p.2.createdSeq < m.nextCreatedSeq

/-- The memory with its shelves in the order of their creation. -/
def inOrder (m : Memory) : Memory :=
  { m with shelves := m.shelves.mergeSort fun p q => p.2.createdSeq ≤ q.2.createdSeq }

/-- The collections of a memory in the order of their creation, with their lists of documents. -/
def catalog (m : Memory) : Catalog .exact := m.inOrder.view

variable {m m' : Memory} {a : Address}

lemma perm_inOrder (m : Memory) : m.shelves.Perm m.inOrder.shelves :=
  (List.mergeSort_perm ..).symm

theorem Sound.consistent (h : m.Sound) : m.Consistent where
  addresses := h.addresses
  shelves a s hs := Shelf.consistent_iff.mpr (h.shelves a s hs)
  created := by
    rw [List.Nodup, List.pairwise_map]
    exact h.ascending.imp Nat.ne_of_lt
  below := h.below

theorem Consistent.perm (h : m'.Consistent) (hp : m.shelves.Perm m'.shelves)
    (hn : m.nextCreatedSeq = m'.nextCreatedSeq) : m.Consistent where
  addresses := (hp.map _).nodup_iff.mpr h.addresses
  shelves a s hs := h.shelves a s (hp.mem_iff.mp hs)
  created := (hp.map _).nodup_iff.mpr h.created
  below p hm := hn ▸ h.below p (hp.mem_iff.mp hm)

theorem Consistent.sound_inOrder (h : m.Consistent) : m.inOrder.Sound := by
  have hi : m.inOrder.Consistent := h.perm (perm_inOrder m).symm rfl
  refine ⟨hi.addresses, fun a s hs => Shelf.consistent_iff.mp (hi.shelves a s hs), ?_, hi.below⟩
  have hle : m.inOrder.shelves.Pairwise fun p q => p.2.createdSeq ≤ q.2.createdSeq :=
    pairwise_mergeSort_number (·.2.createdSeq) m.shelves
  have hne : m.inOrder.shelves.Pairwise fun p q => p.2.createdSeq ≠ q.2.createdSeq :=
    List.pairwise_map.mp hi.created
  exact (hle.and hne).imp fun ⟨hle, hne⟩ => Nat.lt_of_le_of_ne hle hne

/-! ### The order of the shelves -/

/-- The sound memory `m'` has the shelves of `m`, perhaps in another order. -/
structure Rearranged (m m' : Memory) : Prop where
  perm : m.shelves.Perm m'.shelves
  next : m.nextCreatedSeq = m'.nextCreatedSeq
  sound : m'.Sound

theorem Consistent.rearranged (h : m.Consistent) : Rearranged m m.inOrder :=
  ⟨perm_inOrder m, rfl, h.sound_inOrder⟩

namespace Rearranged

theorem consistent (h : Rearranged m m') : m.Consistent := h.sound.consistent.perm h.perm h.next

/-- There is one way to bring the shelves into order. -/
theorem inOrder_eq (h : Rearranged m m') : m.inOrder = m' := by
  have hshelves : m.inOrder.shelves = m'.shelves := mergeSort_eq_of_perm h.perm h.sound.ascending
  have hnext : m.inOrder.nextCreatedSeq = m'.nextCreatedSeq := h.next
  generalize m.inOrder = i at hshelves hnext
  cases i
  cases m'
  simp_all

theorem find?_eq (h : Rearranged m m') (a : Address) :
    Keyed.find? a m.shelves = Keyed.find? a m'.shelves :=
  Keyed.find?_perm h.consistent.addresses h.perm

theorem contains_eq (h : Rearranged m m') (a : Address) :
    Keyed.contains a m.shelves = Keyed.contains a m'.shelves :=
  congrArg Option.isSome (h.find?_eq a)

theorem shelf_eq (h : Rearranged m m') (a : Address) : shelf a m = shelf a m' := by
  unfold shelf
  rw [h.find?_eq]

/-- The list of collections does not depend on the order of the shelves. -/
theorem shelvesOf_eq (h : Rearranged m m') (partition : String) :
    m.shelvesOf partition = m'.shelvesOf partition := by
  have hperm : ((m.shelves.filter fun p => p.1.partition = partition).map (·.2)).Perm
      ((m'.shelves.filter fun p => p.1.partition = partition).map (·.2)) :=
    (h.perm.filter _).map _
  rw [h.sound.shelvesOf]
  refine mergeSort_eq_of_perm hperm ?_
  rw [List.pairwise_map]
  exact h.sound.ascending.filter _

/-- Writing to one shelf of both, if the one in order shows a catalog then. -/
theorem agree_reshelve (h : Rearranged m m') (f : Shelf → Shelf) {y : Except Fault (Catalog .exact)}
    (hy : Agree Shows ((shelf a m').map fun s => m'.reshelve a (f s)) y) :
    Agree Rearranged ((shelf a m).map fun s => m.reshelve a (f s))
      ((shelf a m').map fun s => m'.reshelve a (f s)) := by
  rw [h.shelf_eq]
  cases hs : shelf a m' with
  | error e => exact .error e
  | ok s =>
    rw [hs] at hy
    obtain ⟨_, -, hsound, -⟩ := hy.exists_ok
    have hput := Keyed.put_perm (k := a) (v := f s) h.consistent.addresses h.perm
    exact .ok ⟨hput, h.next, hsound⟩

end Rearranged

/-- **The order of the shelves shows in no answer.** -/
theorem refinement_rearranged : Backend.Refinement Rearranged where
  hasCollection h _ := congrArg Except.ok (h.contains_eq _)
  collection? := by
    rintro m m' a h -
    refine .option_rel_of_eq (Collection.Alike.refl fun _ => rfl) ?_
    exact congrArg (fun o => Except.ok (Option.map Shelf.snapshot o)) (h.find?_eq a)
  create := by
    rintro m m' a c d h - hcd
    obtain rfl := hcd.eq
    have hagree : Agree Shows (create a c m') _ :=
      refinement.create (a := a) (c := c) ⟨h.sound, rfl⟩ trivial hcd
    show Agree Rearranged (create a c m) (create a c m')
    unfold create at hagree ⊢
    rw [h.contains_eq, h.next]
    cases hc : Keyed.contains a m'.shelves with
    | true => exact .error _
    | false =>
      rw [hc] at hagree
      obtain ⟨_, -, hsound, -⟩ := hagree.exists_ok
      have hput := Keyed.put_perm (k := a) (v := Shelf.empty c m'.nextCreatedSeq)
        h.consistent.addresses h.perm
      exact .ok ⟨hput, rfl, hsound⟩
  redescribe := by
    rintro m m' a c d h - hcd
    obtain rfl := hcd.eq
    exact h.agree_reshelve (fun s => { s with descriptor := c })
      (refinement.redescribe ⟨h.sound, rfl⟩ trivial hcd)
  drop := by
    rintro m m' a h -
    exact .ok ⟨h.contains_eq a, h.perm.filter _, h.next, h.sound.erase a⟩
  collections := by
    rintro m m' p h -
    refine .forall₂_of_eq (Collection.Alike.refl fun _ => rfl) ?_
    exact congrArg (fun l => Except.ok (List.map Shelf.snapshot l)) (h.shelvesOf_eq p)
  hasDocument id h _ := congrArg (Except.map _) (h.shelf_eq _)
  document? id h _ := congrArg (Except.map _) (h.shelf_eq _)
  put := by
    rintro m m' a d h -
    exact h.agree_reshelve (fun s => s.put d) (refinement.put d ⟨h.sound, rfl⟩ trivial)
  remove := by
    rintro m m' a id h -
    have hagree := refinement.remove (a := a) id ⟨h.sound, rfl⟩ trivial
    simp only [Backend.remove, h.shelf_eq] at hagree ⊢
    cases hs : shelf a m' with
    | error e => exact .error e
    | ok s =>
      rw [hs] at hagree
      obtain ⟨_, -, -, hx, -⟩ := hagree.exists_ok
      have hput := Keyed.put_perm (k := a) (v := (s.remove id).2) h.consistent.addresses h.perm
      exact .ok ⟨rfl, hput, h.next, hx⟩
  documents h _ := congrArg (Except.map _) (h.shelf_eq _)
  count h _ := congrArg (Except.map _) (h.shelf_eq _)

/-! ### The refinement -/

lemma consistent_catalog_iff {k : Catalog .exact} :
    (m.Consistent ∧ m.catalog = k) ↔ ∃ m', Rearranged m m' ∧ Shows m' k := by
  constructor
  · rintro ⟨h, hk⟩
    exact ⟨m.inOrder, h.rearranged, h.sound_inOrder, hk⟩
  · rintro ⟨m', h, hshows⟩
    refine ⟨h.consistent, ?_⟩
    unfold catalog
    rw [h.inOrder_eq]
    exact hshows.2

/-- **A consistent memory answers every operation as its catalog, and stays consistent.** -/
theorem refinement_consistent : Backend.Refinement fun m k => Consistent m ∧ m.catalog = k := by
  have hcomp := refinement_rearranged.comp refinement
  have hrel : (fun m k => Consistent m ∧ m.catalog = k) =
      fun m k => ∃ m', Rearranged m m' ∧ Shows m' k := by
    funext m k
    exact propext consistent_catalog_iff
  exact hrel ▸ hcomp

theorem Consistent.catalog_sound (h : m.Consistent) : m.catalog.Sound := by
  have hs := h.sound_inOrder
  refine ⟨?_, fun a hd hmem => ?_⟩
  · unfold catalog view
    rw [List.map_map]
    exact hs.addresses
  · obtain ⟨p, hp, heq⟩ := List.mem_map.mp hmem
    cases heq
    exact (hs.shelves p.1 p.2 hp).ids_nodup

/-- **The memory represents a list of collections with lists of documents.** Consistency holds at
the start and every operation keeps it. A consistent memory answers an operation as its catalog does
and afterwards has the catalog's next state as its catalog, and it keeps documents and collections
in order. -/
theorem represents_catalog :
    (empty.Consistent ∧ empty.catalog = .empty .exact) ∧
    (∀ m : Memory, m.Consistent → m.catalog.Sound ∧
      (∀ a s, (a, s) ∈ m.shelves →
        Set.BijOn (fun id => Keyed.find? id s.positions) {id | id ∈ s.documents.map (·.id)}
          {n | ∃ p ∈ s.order, n = some p.1}) ∧
      ∀ r : Backend.Request,
        (r.perform.exec m).1 = (r.perform.exec m.catalog).1 ∧
        (r.perform.exec m).2.Consistent ∧
        (r.perform.exec m).2.catalog = (r.perform.exec m.catalog).2) ∧
    Backend.Orderly Consistent := by
  have hempty : empty.Consistent := shows_empty.1.consistent
  have hnone : empty.catalog = .empty .exact := by simp [catalog, inOrder, view, empty, Catalog.empty]
  refine ⟨⟨hempty, hnone⟩, fun m hm => ⟨hm.catalog_sound, fun a s hs => ?_, fun r => ?_⟩, ?_⟩
  · exact (hm.shelves a s hs).bijOn
  · obtain ⟨hout, hnext⟩ := Backend.Simulation.perform_sim refinement_consistent r ⟨hm, rfl⟩
    exact ⟨Agree.eq_iff.mp hout, hnext⟩
  · exact Catalog.orderly.of_refinement refinement_consistent fun m hm =>
      ⟨m.catalog, ⟨hm, rfl⟩, hm.catalog_sound⟩

/-- A memory whose younger shelf stands first. On the older one the document that came first was
taken out and put back. -/
def mixed : Memory :=
  let c (name : String) : Collection :=
    .fresh name .cosine ⟨⟨2024, 2, 29, 12, 0, 0, 0⟩, by decide⟩
  let puma : Document := ⟨"puma", "a puma", none, none⟩
  let lynx : Document := ⟨"lynx", "a lynx", none, some [.one]⟩
  let cats := ((((Shelf.empty (c "cats") 2).put puma).put lynx).remove "puma").2.put puma
  { shelves := [(⟨"default", "dogs"⟩, .empty (c "dogs") 5), (⟨"default", "cats"⟩, cats)]
    nextCreatedSeq := 6 }

/-- Memory `mixed` is consistent, so it answers as its catalog, in which the older collection is
first. -/
theorem represents_catalog_mixed :
    mixed.Consistent ∧ mixed.catalog.holdings.map (·.1.name) = ["cats", "dogs"] ∧
    ∀ r : Backend.Request, (r.perform.exec mixed).1 = (r.perform.exec mixed.catalog).1 := by
  have h : mixed.Consistent := by
    refine ⟨by decide, fun a s hs => Shelf.consistent_iff.mpr ?_, by decide, by decide⟩
    rcases List.mem_cons.mp hs with hs | hs
    · cases hs
      exact Shelf.sound_empty _ 5
    · cases List.mem_singleton.mp hs
      exact ((((Shelf.sound_empty _ 2).put _).put _).remove "puma").put _
  have hsorted : mixed.inOrder.shelves = mixed.shelves.reverse :=
    mergeSort_eq_of_perm (List.reverse_perm _).symm (by decide)
  refine ⟨h, ?_, fun r => ((represents_catalog.2.1 mixed h).2.2 r).1⟩
  unfold catalog view
  rw [hsorted]
  rfl

end Memory

end SemanticStore
