import Mathlib.Data.List.Nodup
import SemanticStore.Backend.Basic
import SemanticStore.Body
import SemanticStore.Keyed
import SemanticStore.Proofs.Keyed

/-!
# Catalogs

What a backend keeps, without how it keeps it: the collections in the order of their creation, each
with its descriptor and its documents in the order in which their ids came. A catalog is a backend
itself. It remembers what was put into it, and its `Fidelity` says what is read of that again, for a
backend may keep values or their texts.

`Catalog.Sound` says that no two collections have one address and no two documents of a collection
one id; every operation keeps this (`Catalog.sound_*`).
-/

namespace SemanticStore

/-! ### What is read of what was put -/

/-- How a backend gives back what was put into it. -/
inductive Fidelity where
  /-- it keeps the values themselves -/
  | exact
  /-- it keeps texts, from which the values are read -/
  | textual

namespace Fidelity

/-- What is read of a document that was put. -/
def document : Fidelity → Document → Except Fault Document
  | exact, d => .ok d
  | textual, d => Body.decode d.id (Body.encode d.content d.metadata) d.embedding

/-- What is read of a descriptor that was put at an address. -/
def collection : Fidelity → Address → Collection → Except Fault Collection
  | exact, _, c => .ok c
  | textual, a, c =>
      match Timestamp.parse? c.createdAt.renderNumeric with
      | none => .error (.serialization ("Invalid created_at: " ++ c.createdAt.renderNumeric))
      | some t => .ok { c with name := a.name, createdAt := t }

variable {f : Fidelity} {a : Address} {c c' : Collection}

theorem dimension_of_collection (h : f.collection a c = .ok c') : c'.dimension = c.dimension := by
  cases f with
  | exact => cases h; rfl
  | textual =>
    simp only [collection] at h
    split at h
    · cases h
    · cases h; rfl

end Fidelity

/-! ### The documents of a collection -/

namespace Documents

/-- The document with an id. -/
def find? (id : String) (l : List Document) : Option Document := l.find? fun d => d.id = id

/-- Puts a document in the place of the one with its id, or at the end. -/
def put (d : Document) : List Document → List Document
  | [] => [d]
  | d' :: rest => if d'.id = d.id then d :: rest else d' :: put d rest

/-- Takes out the document with an id. -/
def erase (id : String) (l : List Document) : List Document := l.filter fun d => d.id ≠ id

variable {d e : Document} {id : String} {l : List Document}

lemma put_cons (d d' : Document) (l : List Document) :
    put d (d' :: l) = if d'.id = d.id then d :: l else d' :: put d l := rfl

lemma find?_cons (id : String) (d : Document) (l : List Document) :
    find? id (d :: l) = if d.id = id then some d else find? id l := by
  unfold find?
  rw [List.find?_cons]
  by_cases h : d.id = id <;> simp [h]

lemma find?_eq_none_iff : find? id l = none ↔ id ∉ l.map (·.id) := by
  simp [find?]

lemma mem_of_find? (h : find? id l = some d) : d ∈ l := List.mem_of_find?_eq_some h

@[simp] theorem find?_put_self (d : Document) (l : List Document) :
    find? d.id (put d l) = some d := by
  induction l with
  | nil => simp [put, find?]
  | cons d' l ih =>
    rw [put_cons]
    split
    · simp [find?_cons]
    · rename_i hd
      rw [find?_cons, if_neg hd, ih]

theorem find?_put_of_ne (h : id ≠ d.id) : find? id (put d l) = find? id l := by
  induction l with
  | nil => simp [put, find?, h.symm]
  | cons d' l ih =>
    rw [put_cons]
    split
    · rename_i hd
      simp [find?_cons, hd, h.symm]
    · rw [find?_cons, find?_cons, ih]

theorem put_of_find?_eq_none (h : find? d.id l = none) : put d l = l ++ [d] := by
  induction l with
  | nil => rfl
  | cons d' l ih =>
    rw [find?_cons] at h
    split at h
    · cases h
    · rename_i hd
      rw [put_cons, if_neg hd, ih h, List.cons_append]

theorem ids_put (h : find? d.id l = some e) : (put d l).map (·.id) = l.map (·.id) := by
  induction l with
  | nil => simp [find?] at h
  | cons d' l ih =>
    rw [find?_cons] at h
    rw [put_cons]
    split at h
    · rename_i hd
      rw [if_pos hd, List.map_cons, List.map_cons, hd]
    · rename_i hd
      rw [if_neg hd, List.map_cons, List.map_cons, ih h]

theorem put_eq_map (hl : (l.map (·.id)).Nodup) (h : find? d.id l = some e) :
    put d l = l.map fun d' => if d'.id = d.id then d else d' := by
  induction l with
  | nil => simp [find?] at h
  | cons d' l ih =>
    rw [List.map_cons, List.nodup_cons] at hl
    rw [find?_cons] at h
    rw [put_cons, List.map_cons]
    split at h
    · rename_i hd
      have hrest : ∀ x ∈ l, (if x.id = d.id then d else x) = x := by
        intro x hx
        rw [if_neg]
        intro hxd
        exact hl.1 (hd ▸ hxd ▸ List.mem_map_of_mem (f := fun d : Document => d.id) hx)
      rw [if_pos hd, if_pos hd, List.map_congr_left hrest, List.map_id']
    · rename_i hd
      rw [if_neg hd, if_neg hd, ih hl.2 h]

theorem mem_put (h : e ∈ put d l) : e = d ∨ e ∈ l := by
  induction l with
  | nil => exact .inl (by simpa [put] using h)
  | cons d' l ih =>
    rw [put_cons] at h
    split at h
    · exact (List.mem_cons.mp h).imp id (List.mem_cons_of_mem _)
    · rcases List.mem_cons.mp h with h | h
      · exact .inr (h ▸ List.mem_cons_self ..)
      · exact (ih h).imp id (List.mem_cons_of_mem _)

theorem nodup_put (hl : (l.map (·.id)).Nodup) : ((put d l).map (·.id)).Nodup := by
  cases h : find? d.id l with
  | some e => rwa [ids_put h]
  | none =>
    rw [put_of_find?_eq_none h, List.map_append, List.nodup_append]
    refine ⟨hl, by simp, ?_⟩
    rintro a ha b hb rfl
    obtain rfl : a = d.id := by simpa using hb
    exact find?_eq_none_iff.mp h ha

theorem find?_erase_of_ne {id' : String} (h : id' ≠ id) : find? id' (erase id l) = find? id' l := by
  induction l with
  | nil => rfl
  | cons d l ih =>
    unfold erase at ih ⊢
    rw [List.filter_cons]
    split
    · rw [find?_cons, find?_cons, ih]
    · rename_i hd
      have hd : d.id = id := by simpa using hd
      rw [ih, find?_cons, if_neg (hd ▸ h.symm)]

lemma mem_erase : d ∈ erase id l ↔ d ∈ l ∧ d.id ≠ id := by
  simp [erase]

lemma nodup_erase (hl : (l.map (·.id)).Nodup) : ((erase id l).map (·.id)).Nodup :=
  hl.sublist (List.filter_sublist.map _)

lemma length_erase (id : String) (hl : (l.map (·.id)).Nodup) :
    (erase id l).length + (if (find? id l).isSome then 1 else 0) = l.length := by
  induction l with
  | nil => rfl
  | cons d l ih =>
    rw [List.map_cons, List.nodup_cons] at hl
    have hrest := ih hl.2
    rw [find?_cons]
    unfold erase at hrest ⊢
    by_cases hd : d.id = id
    · -- there is no other document with this id
      have hnone : find? id l = none := find?_eq_none_iff.mpr (hd ▸ hl.1)
      rw [hnone] at hrest
      simpa [List.filter_cons, hd] using hrest
    · rw [List.filter_cons_of_pos (by simpa using hd), if_neg hd, List.length_cons,
        List.length_cons]
      omega

lemma ids_of_forall₂ {R : Document → Document → Prop} {l' : List Document}
    (h : List.Forall₂ R l l') (hR : ∀ d e, R d e → e.id = d.id) :
    l'.map (·.id) = l.map (·.id) := by
  rw [← List.forall₂_eq_eq_eq, List.forall₂_map_left_iff, List.forall₂_map_right_iff]
  exact h.flip.imp fun e d hde => hR d e hde

/-! Batches of documents and of ids. -/

/-- Puts documents one after the other. -/
def putAll (documents : List Document) (l : List Document) : List Document :=
  documents.foldl (fun l d => put d l) l

/-- Takes out documents one after the other. -/
def eraseAll (ids : List String) (l : List Document) : List Document :=
  ids.foldl (fun l id => erase id l) l

theorem find?_putAll_of_notMem {documents : List Document} (h : id ∉ documents.map (·.id)) :
    find? id (putAll documents l) = find? id l := by
  induction documents generalizing l with
  | nil => rfl
  | cons d rest ih =>
    rw [List.map_cons, List.mem_cons, not_or] at h
    show find? id (putAll rest (put d l)) = _
    rw [ih h.2, find?_put_of_ne h.1]

theorem find?_putAll {init tail : List Document} (h : d.id ∉ tail.map (·.id)) :
    find? d.id (putAll (init ++ d :: tail) l) = some d := by
  have hsplit : putAll (init ++ d :: tail) l = putAll tail (put d (putAll init l)) := by
    simp [putAll]
  rw [hsplit, find?_putAll_of_notMem h, find?_put_self]

theorem find?_eraseAll_of_notMem {ids : List String} (h : id ∉ ids) :
    find? id (eraseAll ids l) = find? id l := by
  induction ids generalizing l with
  | nil => rfl
  | cons i rest ih =>
    rw [List.mem_cons, not_or] at h
    show find? id (eraseAll rest (erase i l)) = _
    rw [ih h.2, find?_erase_of_ne h.1]

end Documents

/-! ### Catalogs -/

/-- A collection as it was described, with the documents put into it. -/
structure Holding where
  descriptor : Collection
  documents : List Document

/-- The collections of a backend, oldest first. -/
structure Catalog (f : Fidelity) where
  holdings : List (Address × Holding)

namespace Catalog

variable {f : Fidelity}

def empty (f : Fidelity) : Catalog f := ⟨[]⟩

/-- The collection at an address. -/
def holding (a : Address) (k : Catalog f) : Except Fault Holding :=
  match Keyed.find? a k.holdings with
  | some h => .ok h
  | none => .error (.collectionMissing a.display)

/-- Writes a collection to an address. -/
def store (a : Address) (h : Holding) (k : Catalog f) : Catalog f := ⟨Keyed.put a h k.holdings⟩

/-- The catalog with an empty collection at the end, and no other at its address. -/
def found (a : Address) (c : Collection) (k : Catalog f) : Catalog f :=
  ⟨Keyed.erase a k.holdings ++ [(a, ⟨c, []⟩)]⟩

/-- What is read of a collection: its descriptor with the present number of documents. -/
def snapshot (f : Fidelity) (a : Address) (h : Holding) : Except Fault Collection :=
  (f.collection a h.descriptor).map fun c => { c with count := h.documents.length }

def collection? (a : Address) (k : Catalog f) : Except Fault (Option Collection) :=
  match Keyed.find? a k.holdings with
  | none => .ok none
  | some h => (snapshot f a h).map some

def create (a : Address) (c : Collection) (k : Catalog f) : Except Fault (Catalog f) :=
  if Keyed.contains a k.holdings then .error (.collectionPresent a.display)
  else .ok ⟨k.holdings ++ [(a, ⟨c, []⟩)]⟩

/-- What is read of the document with an id, if there is one. -/
def read? (id : String) (h : Holding) : Except Fault (Option Document) :=
  match Documents.find? id h.documents with
  | none => .ok none
  | some d => (f.document d).map some

instance : Backend (Catalog f) where
  kind := "catalog"
  hasCollection a k := .ok (Keyed.contains a k.holdings)
  collection? := collection?
  create := create
  redescribe a c k := (holding a k).map fun h => k.store a { h with descriptor := c }
  drop a k := .ok (Keyed.contains a k.holdings, ⟨Keyed.erase a k.holdings⟩)
  collections partition k :=
    (k.holdings.filter fun ah => ah.1.partition = partition).mapM fun ah => snapshot f ah.1 ah.2
  hasDocument a id k := (holding a k).map fun h => (Documents.find? id h.documents).isSome
  document? a id k := holding a k >>= read? (f := f) id
  put a d k := (holding a k).map fun h =>
    k.store a { h with documents := Documents.put d h.documents }
  remove a id k := (holding a k).map fun h =>
    ((Documents.find? id h.documents).isSome,
      k.store a { h with documents := Documents.erase id h.documents })
  documents a k := holding a k >>= fun h => h.documents.mapM f.document
  count a k := (holding a k).map fun h => h.documents.length

variable {k : Catalog f} {a : Address} {h : Holding}

lemma holding_of_find? (hh : Keyed.find? a k.holdings = some h) : holding a k = .ok h := by
  simp [holding, hh]

lemma holding_map_eq_ok {α : Type} {g : Holding → α} {x : α} :
    (holding a k).map g = .ok x ↔ ∃ h, Keyed.find? a k.holdings = some h ∧ g h = x := by
  unfold holding
  cases Keyed.find? a k.holdings <;> simp [Except.map]

@[simp] lemma find?_store_self (a : Address) (h : Holding) (k : Catalog f) :
    Keyed.find? a (k.store a h).holdings = some h := Keyed.find?_put_self

lemma find?_store_of_ne {b : Address} (hb : b ≠ a) (h : Holding) (k : Catalog f) :
    Keyed.find? b (k.store a h).holdings = Keyed.find? b k.holdings := Keyed.find?_put_of_ne hb

lemma store_of_find? (hh : Keyed.find? a k.holdings = some h) : k.store a h = k :=
  congrArg Catalog.mk (Keyed.put_of_find? hh)

lemma store_store (h h' : Holding) : (k.store a h).store a h' = k.store a h' :=
  congrArg Catalog.mk Keyed.put_put

@[simp] lemma find?_found_self (a : Address) (c : Collection) (k : Catalog f) :
    Keyed.find? a (k.found a c).holdings = some ⟨c, []⟩ := by
  unfold found
  rw [Keyed.find?_append, Keyed.find?_erase_self]
  exact if_pos rfl

lemma find?_found_of_ne {b : Address} (hb : b ≠ a) (c : Collection) (k : Catalog f) :
    Keyed.find? b (k.found a c).holdings = Keyed.find? b k.holdings := by
  unfold found
  rw [Keyed.find?_append, Keyed.find?_erase_of_ne hb, Keyed.find?_cons, if_neg hb.symm]
  exact Option.or_none

/-! A collection that is there takes every write. -/

lemma redescribe_of_find? (hh : Keyed.find? a k.holdings = some h) (c : Collection) :
    Backend.redescribe a c k = .ok (k.store a { h with descriptor := c }) :=
  congrArg (Except.map _) (holding_of_find? hh)

lemma put_of_find? (hh : Keyed.find? a k.holdings = some h) (d : Document) :
    Backend.put a d k = .ok (k.store a { h with documents := Documents.put d h.documents }) :=
  congrArg (Except.map _) (holding_of_find? hh)

lemma remove_of_find? (hh : Keyed.find? a k.holdings = some h) (id : String) :
    Backend.remove a id k = .ok ((Documents.find? id h.documents).isSome,
      k.store a { h with documents := Documents.erase id h.documents }) :=
  congrArg (Except.map _) (holding_of_find? hh)

lemma create_of_find?_eq_none (hn : Keyed.find? a k.holdings = none) (c : Collection) :
    Backend.create a c k = .ok ⟨k.holdings ++ [(a, ⟨c, []⟩)]⟩ := by
  show create a c k = _
  unfold create
  rw [Keyed.contains_eq_false.mpr hn]
  rfl

lemma document?_of_find? (hh : Keyed.find? a k.holdings = some h) (id : String) :
    Backend.document? a id k = read? (f := f) id h := by
  show (holding a k >>= read? (f := f) id) = _
  rw [holding_of_find? hh]
  rfl

/-- A descriptor that is read is that of the collection at its address, but for what is read
otherwise than it was put. -/
lemma exists_of_collection? {c : Collection} (hc : Backend.collection? a k = .ok (some c)) :
    ∃ h, Keyed.find? a k.holdings = some h ∧ c.dimension = h.descriptor.dimension := by
  have hc : Catalog.collection? a k = .ok (some c) := hc
  unfold Catalog.collection? snapshot at hc
  cases hh : Keyed.find? a k.holdings with
  | none =>
    rw [hh] at hc
    cases hc
  | some h =>
    rw [hh] at hc
    cases hread : f.collection a h.descriptor with
    | error e => simp [hread, Except.map] at hc
    | ok c' =>
      simp only [hread, Except.map, Except.ok.injEq, Option.some.injEq] at hc
      have hdim := Fidelity.dimension_of_collection hread
      exact ⟨h, rfl, hc ▸ hdim⟩

/-! ### Soundness -/

/-- No address and, within a collection, no id is there twice. -/
structure Sound (k : Catalog f) : Prop where
  addresses : (k.holdings.map (·.1)).Nodup
  ids : ∀ a h, (a, h) ∈ k.holdings → (h.documents.map (·.id)).Nodup

theorem sound_empty : (empty f).Sound := ⟨List.nodup_nil, by simp [empty]⟩

theorem sound_create (hk : k.Sound) (hn : Keyed.find? a k.holdings = none) (c : Collection) :
    Sound (f := f) ⟨k.holdings ++ [(a, ⟨c, []⟩)]⟩ := by
  rw [← Keyed.put_of_find?_eq_none hn]
  refine ⟨Keyed.nodup_put hk.addresses, fun a' h' hm => ?_⟩
  rcases Keyed.mem_put hm with heq | hm
  · cases heq
    exact List.nodup_nil
  · exact hk.ids a' h' hm

theorem sound_store (hk : k.Sound) (hh : (h.documents.map (·.id)).Nodup) : (k.store a h).Sound := by
  refine ⟨Keyed.nodup_put hk.addresses, fun a' h' hm => ?_⟩
  rcases Keyed.mem_put hm with heq | hm
  · cases heq
    exact hh
  · exact hk.ids a' h' hm

theorem sound_erase (hk : k.Sound) (a : Address) : Sound (f := f) ⟨Keyed.erase a k.holdings⟩ :=
  ⟨Keyed.nodup_erase hk.addresses, fun a' h' hm => hk.ids a' h' (Keyed.mem_erase.mp hm).1⟩

theorem Sound.ids_of_find? (hk : k.Sound) (hh : Keyed.find? a k.holdings = some h) :
    (h.documents.map (·.id)).Nodup :=
  hk.ids a h (Keyed.mem_of_find? hh)

end Catalog

end SemanticStore
