import Mathlib.Data.List.Dedup
import SemanticStore.Proofs.Store.Lifecycle
import SemanticStore.Proofs.Store.UpdateFrame

/-!
# Deletion subtracts a set of ids

Documents are taken out one id after the other. What is left is the list without the documents whose
ids are listed (`Documents.without`), so it does not matter in what order the ids come, how often, or in
how many deletions. `Catalog.without` is the catalog that is left.

Two worlds are `World.Indistinct` if no requests tell them apart. `Store.delete_outcome` has what a
deletion does in every world that is reached on memory or on tables.
-/

namespace SemanticStore

open SemanticStore.Action

/-! ### Lists without the documents that are listed -/

namespace Documents

/-- The documents whose ids are not listed. -/
def without (ids : List String) (l : List Document) : List Document := l.filter fun d => d.id ∉ ids

variable {ids ids' : List String} {d : Document} {l : List Document}

lemma mem_without : d ∈ without ids l ↔ d ∈ l ∧ d.id ∉ ids := by
  simp [without]

lemma without_without : without ids' (without ids l) = without (ids ++ ids') l := by
  unfold without
  rw [List.filter_filter]
  refine List.filter_congr fun d _ => ?_
  simp [Bool.and_comm]

lemma without_congr (h : ∀ id, id ∈ ids' ↔ id ∈ ids) (l : List Document) :
    without ids' l = without ids l := by
  unfold without
  refine List.filter_congr fun d _ => ?_
  simp [h]

lemma nodup_without (hl : (l.map (·.id)).Nodup) : ((without ids l).map (·.id)).Nodup :=
  hl.sublist (List.filter_sublist.map _)

theorem eraseAll_eq_without (ids : List String) (l : List Document) :
    eraseAll ids l = without ids l := by
  induction ids generalizing l with
  | nil => simp [eraseAll, without]
  | cons id rest ih =>
    have herase : erase id l = without [id] l := by simp [erase, without]
    show eraseAll rest (erase id l) = _
    rw [ih, herase, without_without, List.singleton_append]

/-- As many documents are missing as there are different ids that are listed and were there. -/
theorem length_without (ids : List String) (hl : (l.map (·.id)).Nodup) :
    (without ids l).length + (ids.dedup.filter fun id => id ∈ l.map (·.id)).length = l.length := by
  have hsame : (ids.dedup.filter fun id => id ∈ l.map (·.id)).Perm
      ((l.map (·.id)).filter fun id => id ∈ ids) := by
    rw [List.perm_ext_iff_of_nodup ((List.nodup_dedup ids).filter _) (hl.filter _)]
    intro id
    simp only [List.mem_filter, List.mem_dedup, decide_eq_true_eq]
    exact and_comm
  have hsplit := List.length_eq_length_filter_add (l := l) fun d => decide (d.id ∉ ids)
  have htaken : ((l.map (·.id)).filter fun id => id ∈ ids).length =
      (l.filter fun d => !decide (d.id ∉ ids)).length := by
    rw [List.filter_map, List.length_map]
    refine congrArg List.length (List.filter_congr fun d _ => ?_)
    simp
  rw [hsame.length_eq, htaken]
  exact hsplit.symm

lemma without_read {f : Fidelity} {ds : List Document}
    (h : List.Forall₂ (fun d e => f.document d = .ok e) l ds) :
    List.Forall₂ (fun d e => f.document d = .ok e) (without ids l) (without ids ds) := by
  refine List.rel_filter (fun d e hread => ?_) h
  have hid := (Fidelity.document_eq_ok hread).1
  simp [hid]

lemma mem_ids_added {batch : List Document} (hd : d ∈ batch) (hl : d.id ∉ l.map (·.id)) :
    d.id ∈ ((newIds batch l).filterMap fun id => last? id batch).map (·.id) := by
  have hnew : d.id ∈ newIds batch l := by
    unfold newIds
    rw [List.mem_eraseDups, List.mem_filter]
    exact ⟨List.mem_map_of_mem hd, by simpa using hl⟩
  cases hlast : last? d.id batch with
  | none => exact absurd (List.mem_map_of_mem hd) (last?_eq_none_iff.mp hlast)
  | some p =>
    have hid : p.id = d.id := by simpa using List.find?_some hlast
    exact List.mem_map.mpr ⟨p, List.mem_filterMap.mpr ⟨d.id, hnew, hlast⟩, hid⟩

/-- Insertion updates the documents that are there. -/
lemma updated_inserted (batch l : List Document) :
    List.Forall₂ (Document.Updated batch) l (l.map fun d => (last? d.id batch).getD d) := by
  rw [List.forall₂_map_right_iff, List.forall₂_same]
  intro d _
  cases hlast : last? d.id batch with
  | none => exact ⟨rfl, fun _ => rfl, fun p hp => by simp [hlast] at hp⟩
  | some p =>
    have hid : p.id = d.id := by simpa using List.find?_some hlast
    refine ⟨hid, fun hother => ?_, fun p' hp' => ?_⟩
    · rw [last?_eq_none_iff.mpr hother] at hlast
      cases hlast
    · cases hlast.symm.trans hp'
      exact ⟨rfl, rfl⟩

end Documents

/-! ### Catalogs without the documents that are listed -/

namespace Catalog

variable {f : Fidelity} {k : Catalog f} {a : Address} {h : Holding} {ids ids' : List String}

/-- The catalog without the documents at an address whose ids are listed. -/
def without (a : Address) (ids : List String) (k : Catalog f) : Catalog f :=
  match Keyed.find? a k.holdings with
  | none => k
  | some h => k.store a { h with documents := Documents.without ids h.documents }

lemma without_of_find? (hh : Keyed.find? a k.holdings = some h) :
    k.without a ids = k.store a { h with documents := Documents.without ids h.documents } := by
  unfold without
  rw [hh]

lemma find?_without_self (a : Address) (ids : List String) (k : Catalog f) :
    Keyed.find? a (k.without a ids).holdings = (Keyed.find? a k.holdings).map fun h =>
      { h with documents := Documents.without ids h.documents } := by
  cases hh : Keyed.find? a k.holdings with
  | none =>
    unfold without
    rw [hh]
    exact hh
  | some h => rw [without_of_find? hh, find?_store_self, Option.map_some]

lemma find?_without_of_ne {b : Address} (hb : b ≠ a) (ids : List String) (k : Catalog f) :
    Keyed.find? b (k.without a ids).holdings = Keyed.find? b k.holdings := by
  unfold without
  split
  · rfl
  · exact find?_store_of_ne hb ..

theorem without_without : (k.without a ids).without a ids' = k.without a (ids ++ ids') := by
  cases hh : Keyed.find? a k.holdings with
  | none => simp [without, hh]
  | some h =>
    have hleft := find?_without_self a ids k
    rw [hh, Option.map_some] at hleft
    rw [without_of_find? hleft, without_of_find? hh, without_of_find? hh, store_store]
    dsimp only
    rw [Documents.without_without]

theorem without_congr (h : ∀ id, id ∈ ids' ↔ id ∈ ids) (k : Catalog f) :
    k.without a ids' = k.without a ids := by
  unfold without
  split
  · rfl
  · rw [Documents.without_congr h]

theorem sound_without (hk : k.Sound) (a : Address) (ids : List String) :
    (k.without a ids).Sound := by
  unfold without
  split
  · exact hk
  · rename_i h hh
    exact sound_store hk (Documents.nodup_without (hk.ids_of_find? hh))

lemma documentsAt_without (a : Address) (ids : List String) (k : Catalog f) :
    (k.without a ids).documentsAt a = Documents.without ids (k.documentsAt a) := by
  unfold documentsAt
  rw [find?_without_self]
  cases Keyed.find? a k.holdings <;> rfl

theorem shown_without {c : Collection} (hc : Store.Shown a c k) (ids : List String) :
    Store.Shown a { c with count := (Documents.without ids (k.documentsAt a)).length }
      (k.without a ids) := by
  obtain ⟨h, c', hh, hread, rfl⟩ := shown_iff_read.mp hc
  refine shown_iff_read.mpr
    ⟨{ h with documents := Documents.without ids h.documents }, c', ?_, hread, ?_⟩
  · rw [find?_without_self, hh, Option.map_some]
  · rw [documentsAt_of_find? hh]

lemma count_of_shown {c : Collection} (hc : Store.Shown a c k) :
    c.count = (k.documentsAt a).length := by
  obtain ⟨h, c', hh, -, rfl⟩ := shown_iff_read.mp hc
  rw [documentsAt_of_find? hh]

end Catalog

/-! ### Worlds that no requests tell apart -/

/-- From both worlds, all requests to the backend and all calls to stores result in the same. -/
structure World.Indistinct {σ : Type} [Backend σ] (w w' : World σ) : Prop where
  answers : ∀ rs, Backend.answers rs w.backend = Backend.answers rs w'.backend
  replies : ∀ calls, Store.replies calls w = Store.replies calls w'

theorem World.Indistinct.of_refinement {σ : Type} [Backend σ] {f : Fidelity}
    {R : σ → Catalog f → Prop} (hR : Backend.Refinement R) {w w' : World σ}
    {v v' : World (Catalog f)} (hwv : World.Related R w v) (hwv' : World.Related R w' v')
    (h : World.Related Eq v v') : w.Indistinct w' := by
  obtain ⟨hbackend, hcalls⟩ := h
  have hw : World.Related R w v' := ⟨hbackend ▸ hwv.1, hwv.2.trans hcalls⟩
  constructor
  · intro rs
    rw [hR.answers_eq rs hw.1, hR.answers_eq rs hwv'.1]
  · intro calls
    rw [Store.replies_eq hR calls hw, Store.replies_eq hR calls hwv']

namespace Store

variable {σ : Type} [Backend σ]

/-- The world after a deletion. -/
def deleted (store : Store) (name : String) (ids : List String) (w : World σ) : World σ :=
  ((store.delete name ids).exec w).2

variable {store : Store} {name : String} {ids ids' : List String}

lemma exec_delete (store : Store) (name : String) (ids : List String) (w : World σ) :
    (store.delete name ids).exec w =
      (((store.onHoldings name fun a => Holdings.delete a ids).exec w).1.map fun _ => (),
        ((store.onHoldings name fun a => Holdings.delete a ids).exec w).2) :=
  exec_bind_pure _ (fun _ => ()) w

lemma exec_delete_of_error {w : World σ} {e : Fault}
    (he : ((store.find name).exec w.backend).1 = .error e) (ids : List String) :
    (store.delete name ids).exec w =
      (.error e, { w with locks := (w.locks.handle (store.address name)).2 }) := by
  have hkeep := (exec_find store name
    { w with locks := (w.locks.handle (store.address name)).2 }).1
  have hfind : (World.onBackend (store.find name)).exec
      { w with locks := (w.locks.handle (store.address name)).2 } =
        (.error e, { w with locks := (w.locks.handle (store.address name)).2 }) :=
    Prod.ext he hkeep
  rw [exec_delete]
  unfold onHoldings
  rw [exec_bind, exec_lock]
  dsimp only
  rw [exec_bind, hfind]
  rfl

/-! ### Deletions from a catalog -/

section Catalog

variable {f : Fidelity} {v : World (Catalog f)} {c : Collection}

omit [Backend σ]

/-- The documents that are listed are taken out, and it is reported how many there were. -/
theorem exec_delete_documents {a : Address} {h : Holding} {k : Catalog f} (hk : k.Sound)
    (hh : Keyed.find? a k.holdings = some h) (ids : List String) :
    (Holdings.delete a ids).exec k =
      (.ok (ids.dedup.filter fun id => id ∈ (k.documentsAt a).map (·.id)).length,
        k.without a ids) := by
  have hids := hk.ids_of_find? hh
  obtain ⟨n, hexec, hcount⟩ := Holdings.exec_delete ids hh
  have hcount := hcount hids
  have hlength := Documents.length_without ids hids
  rw [Documents.eraseAll_eq_without] at hexec hcount
  rw [hexec, Catalog.without_of_find? hh, Catalog.documentsAt_of_find? hh]
  have hn : n = (ids.dedup.filter fun id => id ∈ h.documents.map (·.id)).length := by omega
  rw [hn]

theorem exec_delete_of_shown (hv : v.backend.Sound)
    (hc : Shown (store.address name) c v.backend) (ids : List String) :
    (store.delete name ids).exec v = (.ok (), ⟨v.backend.without (store.address name) ids,
      (v.locks.handle (store.address name)).2, v.calls⟩) := by
  obtain ⟨h, hh, -⟩ := Catalog.exists_of_shown hc
  rw [exec_delete, exec_onHoldings hc, exec_delete_documents hv hh]
  rfl

/-- A deletion takes documents out of a collection that can be looked up, or it changes nothing. -/
lemma shown_or_error (store : Store) (name : String) (v : World (Catalog f)) :
    (∃ c, Shown (store.address name) c v.backend) ∨
      ∃ e, ((store.find name).exec v.backend).1 = .error e := by
  cases hfind : ((store.find name).exec v.backend).1 with
  | ok c => exact .inl ⟨c, (exec_find store name v).2 c hfind⟩
  | error e => exact .inr ⟨e, rfl⟩

/-- **Deletions in a row take out what one deletion of all their ids takes out.** -/
theorem deleted_deleted (store : Store) (name : String) (hv : v.backend.Sound)
    (ids ids' : List String) : World.Related Eq
    (store.deleted name ids' (store.deleted name ids v)) (store.deleted name (ids ++ ids') v) := by
  unfold deleted
  rcases shown_or_error store name v with ⟨c, hc⟩ | ⟨e, he⟩
  · have hc' := Catalog.shown_without hc ids
    rw [exec_delete_of_shown hv hc, exec_delete_of_shown hv hc]
    dsimp only
    rw [exec_delete_of_shown (Catalog.sound_without hv ..) hc']
    exact ⟨Catalog.without_without, rfl⟩
  · have he' : ((store.find name).exec ((store.delete name ids).exec v).2.backend).1 = .error e := by
      rw [exec_delete_of_error he]
      exact he
    rw [exec_delete_of_error he', exec_delete_of_error he, exec_delete_of_error he]
    exact ⟨rfl, rfl⟩

/-- **Only the set of the ids matters.** -/
theorem deleted_congr (hv : v.backend.Sound) (h : ∀ id, id ∈ ids' ↔ id ∈ ids) :
    World.Related Eq (store.deleted name ids' v) (store.deleted name ids v) := by
  unfold deleted
  rcases shown_or_error store name v with ⟨c, hc⟩ | ⟨e, he⟩
  · rw [exec_delete_of_shown hv hc, exec_delete_of_shown hv hc]
    exact ⟨Catalog.without_congr h _, rfl⟩
  · rw [exec_delete_of_error he, exec_delete_of_error he]
    exact ⟨rfl, rfl⟩

theorem deleted_self (hv : v.backend.Sound) : World.Related Eq
    (store.deleted name ids (store.deleted name ids v)) (store.deleted name ids v) := by
  have hboth := deleted_deleted store name hv ids ids
  have hsame : World.Related Eq (store.deleted name (ids ++ ids) v)
      (store.deleted name ids v) := deleted_congr hv (by simp)
  exact ⟨hboth.1.trans hsame.1, hboth.2.trans hsame.2⟩

theorem deleted_comm (hv : v.backend.Sound) : World.Related Eq
    (store.deleted name ids' (store.deleted name ids v))
    (store.deleted name ids (store.deleted name ids' v)) := by
  have hleft := deleted_deleted store name hv ids ids'
  have hright := deleted_deleted store name hv ids' ids
  have hswap : World.Related Eq (store.deleted name (ids ++ ids') v)
      (store.deleted name (ids' ++ ids) v) := deleted_congr hv (by simp [or_comm])
  exact ⟨(hleft.1.trans hswap.1).trans hright.1.symm, (hleft.2.trans hswap.2).trans hright.2.symm⟩

/-- A deletion after another one succeeds or fails as that one did. -/
theorem delete_deleted_fst (hv : v.backend.Sound) (ids ids' : List String) :
    ((store.delete name ids').exec (store.deleted name ids v)).1 =
      ((store.delete name ids).exec v).1 := by
  unfold deleted
  rcases shown_or_error store name v with ⟨c, hc⟩ | ⟨e, he⟩
  · have hc' := Catalog.shown_without hc ids
    rw [exec_delete_of_shown hv hc]
    dsimp only
    rw [exec_delete_of_shown (Catalog.sound_without hv ..) hc']
  · have he' : ((store.find name).exec ((store.delete name ids).exec v).2.backend).1 = .error e := by
      rw [exec_delete_of_error he]
      exact he
    rw [exec_delete_of_error he', exec_delete_of_error he]

theorem sound_deleted (hv : v.backend.Sound) (ids : List String) :
    (store.deleted name ids v).backend.Sound := by
  unfold deleted
  rcases shown_or_error store name v with ⟨c, hc⟩ | ⟨e, he⟩
  · rw [exec_delete_of_shown hv hc]
    exact Catalog.sound_without hv ..
  · rw [exec_delete_of_error he]
    exact hv

end Catalog

/-! ### What a deletion does -/

/-- What a deletion does, whatever the world and the ids. -/
structure DeleteOutcome (f : Fidelity) (store : Store) (name : String) (ids : List String)
    (w : World σ) : Prop where
  /-- it succeeds just if the collection can be looked up -/
  succeeds : ((store.delete name ids).exec w).1 = .ok () ↔
    ∃ c, Shown (store.address name) c w.backend
  /-- the documents whose ids are not listed are left, in their order -/
  kept : ((store.delete name ids).exec w).1 = .ok () → ∃ before,
    Backend.Lists f (store.address name) before w.backend ∧
    Backend.Lists f (store.address name) (Documents.without ids before)
      (store.deleted name ids w).backend
  scanned : ((store.delete name ids).exec w).1 = .ok () → ∀ before,
    Backend.documents (store.address name) w.backend = .ok before →
    Backend.documents (store.address name) (store.deleted name ids w).backend =
      .ok (Documents.without ids before)
  /-- the descriptor stays, and its count falls by the number of different ids that are listed and
  were stored, which is reported -/
  counted : ((store.delete name ids).exec w).1 = .ok () → ∃ c m n,
    Shown (store.address name) c w.backend ∧ c.count = m + n ∧
    Backend.count (store.address name) w.backend = .ok (m + n) ∧
    n = (ids.dedup.filter fun id =>
      Backend.hasDocument (store.address name) id w.backend = .ok true).length ∧
    ((Holdings.delete (store.address name) ids).exec w.backend).1 = .ok n ∧
    Shown (store.address name) { c with count := m } (store.deleted name ids w).backend ∧
    Backend.count (store.address name) (store.deleted name ids w).backend = .ok m
  others : ∀ b ≠ store.address name,
    Backend.Unchanged b w.backend (store.deleted name ids w).backend
  /-- a deletion that follows succeeds or fails alike -/
  follows : ∀ ids', ((store.delete name ids').exec (store.deleted name ids w)).1 =
    ((store.delete name ids).exec w).1
  again : (store.deleted name ids (store.deleted name ids w)).Indistinct (store.deleted name ids w)
  same : ∀ ids', (∀ id, id ∈ ids' ↔ id ∈ ids) →
    (store.deleted name ids' w).Indistinct (store.deleted name ids w)
  append : ∀ ids', (store.deleted name ids' (store.deleted name ids w)).Indistinct
    (store.deleted name (ids ++ ids') w)
  commute : ∀ ids', (store.deleted name ids' (store.deleted name ids w)).Indistinct
    (store.deleted name ids (store.deleted name ids' w))
  /-- of a batch that is inserted then, the documents with deleted ids come after all that were left -/
  reinserted : ((store.delete name ids).exec w).1 = .ok () → ∀ replacing documents,
    ((store.insert name replacing documents).exec (store.deleted name ids w)).1 = .ok () →
    ∃ prepared before kept added,
      ((Indexing.embedMissing store.embedder store.batchSize documents).exec
        (store.deleted name ids w).calls).1 = .ok prepared ∧
      Backend.Lists f (store.address name) before w.backend ∧
      Backend.Lists f (store.address name) (kept ++ added)
        ((store.insert name replacing documents).exec (store.deleted name ids w)).2.backend ∧
      List.Forall₂ (Document.Updated prepared) (Documents.without ids before) kept ∧
      (∀ d ∈ added, d ∈ prepared) ∧
      ∀ d ∈ documents, d.id ∈ ids → d.id ∈ added.map (·.id)

section Refinement

variable {f : Fidelity} {R : σ → Catalog f → Prop} {w : World σ} {v : World (Catalog f)}

lemma deleted_related (hR : Backend.Refinement R) (hwv : World.Related R w v) (store : Store)
    (name : String) (ids : List String) :
    World.Related R (store.deleted name ids w) (store.deleted name ids v) :=
  (delete_sim store hR trivial name ids hwv).2

lemma delete_eq_ok_iff (hR : Backend.Refinement R) (hwv : World.Related R w v)
    (hsound : v.backend.Sound) : ((store.delete name ids).exec w).1 = .ok () ↔
      ∃ c, Shown (store.address name) c v.backend := by
  rw [Agree.eq_iff.mp (delete_sim store hR trivial name ids hwv).1]
  rcases shown_or_error store name v with ⟨c, hc⟩ | ⟨e, he⟩
  · rw [exec_delete_of_shown hsound hc]
    exact iff_of_true rfl ⟨c, hc⟩
  · rw [exec_delete_of_error he]
    refine iff_of_false (by simp) ?_
    rintro ⟨c, hc⟩
    rw [exec_find_of_shown hc] at he
    cases he

/-- What is listed before and after a deletion that succeeds. -/
theorem delete_lists (hR : Backend.Refinement R) (hwv : World.Related R w v)
    (hsound : v.backend.Sound) (hok : ((store.delete name ids).exec w).1 = .ok ()) :
    (store.deleted name ids v).backend = v.backend.without (store.address name) ids ∧
      Backend.Lists f (store.address name) (v.backend.documentsAt (store.address name))
        w.backend ∧
      Backend.Lists f (store.address name)
        (Documents.without ids (v.backend.documentsAt (store.address name)))
        (store.deleted name ids w).backend := by
  obtain ⟨c, hc⟩ := (delete_eq_ok_iff hR hwv hsound).mp hok
  obtain ⟨h, hh, -⟩ := Catalog.exists_of_shown hc
  have hafter := deleted_related hR hwv store name ids
  have hbackend : (store.deleted name ids v).backend =
      v.backend.without (store.address name) ids := by
    unfold deleted
    rw [exec_delete_of_shown hsound hc]
  have hh' := Catalog.find?_without_self (store.address name) ids v.backend
  rw [hh, Option.map_some] at hh'
  have hlists := Catalog.lists (Catalog.sound_without hsound (store.address name) ids) hh'
  rw [Catalog.documentsAt_without, ← hbackend] at hlists
  exact ⟨hbackend, (Catalog.lists hsound hh).of_refinement hR hwv.1,
    hlists.of_refinement hR hafter.1⟩

/-- **Deletions have this outcome on every backend that refines a catalog.** -/
theorem deleteOutcome_of_refinement (hR : Backend.Refinement R) (hwv : World.Related R w v)
    (hsound : v.backend.Sound) (store : Store) (name : String) (ids : List String) :
    DeleteOutcome f store name ids w := by
  have hafter := fun ids => deleted_related hR hwv store name ids
  have hafter' := fun ids' => deleted_related hR (hafter ids) store name ids'
  have hreply := fun ids => Agree.eq_iff.mp (delete_sim store hR trivial name ids hwv).1
  constructor
  case succeeds =>
    rw [delete_eq_ok_iff hR hwv hsound]
    simp only [shown_iff hR hwv.1]
  case kept =>
    intro hok
    obtain ⟨-, hbefore, hleft⟩ := delete_lists hR hwv hsound hok
    exact ⟨_, hbefore, hleft⟩
  case scanned =>
    intro hok before hds
    obtain ⟨-, hbefore, hleft⟩ := delete_lists hR hwv hsound hok
    have hread := forall₂_of_mapM_eq_ok (hbefore.scan.symm.trans hds)
    rw [hleft.scan]
    exact mapM_eq_ok_of_forall₂ (Documents.without_read hread)
  case counted =>
    intro hok
    obtain ⟨hbackend, hbefore, hleft⟩ := delete_lists hR hwv hsound hok
    obtain ⟨c, hc⟩ := (delete_eq_ok_iff hR hwv hsound).mp hok
    obtain ⟨h, hh, -⟩ := Catalog.exists_of_shown hc
    have hlength := Documents.length_without ids hbefore.ids
    have hshown := Catalog.shown_without hc ids
    rw [← hbackend] at hshown
    refine ⟨c, _, (ids.dedup.filter fun id => id ∈
        (v.backend.documentsAt (store.address name)).map (·.id)).length,
      (shown_iff hR hwv.1).mpr hc, ?_, ?_, ?_, ?_, (shown_iff hR (hafter ids).1).mpr hshown,
      hleft.count⟩
    · rw [Catalog.count_of_shown hc, hlength]
    · rw [hbefore.count, hlength]
    · simp only [hbefore.has, Except.ok.injEq, decide_eq_true_eq]
    · have hsim := Holdings.delete_sim hR (a := store.address name) trivial ids hwv.1
      rw [Agree.eq_iff.mp hsim.1, exec_delete_documents hsound hh]
  case others =>
    intro b hb
    refine Backend.Unchanged.of_refinement hR hwv.1 (hafter ids).1 (Catalog.unchanged ?_)
    unfold deleted
    rcases shown_or_error store name v with ⟨c, hc⟩ | ⟨e, he⟩
    · rw [exec_delete_of_shown hsound hc]
      exact Catalog.find?_without_of_ne hb ..
    · rw [exec_delete_of_error he]
  case follows =>
    intro ids'
    rw [hreply, Agree.eq_iff.mp (delete_sim store hR trivial name ids' (hafter ids)).1]
    exact delete_deleted_fst hsound ids ids'
  case again =>
    exact .of_refinement hR (hafter' ids) (hafter ids) (deleted_self hsound)
  case same =>
    intro ids' hids
    exact .of_refinement hR (hafter ids') (hafter ids) (deleted_congr hsound hids)
  case append =>
    intro ids'
    exact .of_refinement hR (hafter' ids') (hafter (ids ++ ids')) (deleted_deleted store name hsound ids ids')
  case commute =>
    intro ids'
    have hother := deleted_related hR (hafter ids') store name ids
    exact .of_refinement hR (hafter' ids') hother (deleted_comm hsound)
  case reinserted =>
    intro hok replacing documents hinsert
    obtain ⟨hbackend, hbefore, hleft⟩ := delete_lists hR hwv hsound hok
    obtain ⟨prepared, hp, hlists, hinserted⟩ :=
      insert_lists hR (hafter ids) (sound_deleted hsound ids) hinsert
    rw [hbackend, Catalog.documentsAt_without] at hinserted
    refine ⟨prepared, _, _, _, hp, hbefore, hinserted, Documents.updated_inserted .., ?_, ?_⟩
    · intro d hd
      obtain ⟨id, -, hid⟩ := List.mem_filterMap.mp hd
      exact List.mem_reverse.mp (Documents.mem_of_find? hid)
    · intro d hd hdeleted
      have hcompletes := Indexing.completes_embedMissing hp
      obtain ⟨p, hpm, hcomplete⟩ := exists_mem_of_forall₂ hcompletes hd
      rw [← hcomplete.id] at hdeleted ⊢
      refine Documents.mem_ids_added hpm fun hmem => ?_
      obtain ⟨e, he, hid⟩ := List.mem_map.mp hmem
      exact (Documents.mem_without.mp he).2 (hid ▸ hdeleted)

end Refinement

/-- **Wherever calls lead to on memory or on tables, a deletion subtracts its ids from the documents
that are there.** -/
theorem delete_outcome (store : Store) (name : String) (ids : List String) :
    (∀ w : World Memory, Reachable Memory.empty w → DeleteOutcome .exact store name ids w) ∧
      ∀ w : World Tables, Reachable Tables.empty w → DeleteOutcome .textual store name ids w := by
  constructor
  · intro w hw
    obtain ⟨v, hv, hwv⟩ := hw.related Memory.refinement Memory.shows_empty
    exact deleteOutcome_of_refinement Memory.refinement hwv hv.sound store name ids
  · intro w hw
    obtain ⟨v, hv, hwv⟩ := hw.related Tables.refinement Tables.shows_empty
    exact deleteOutcome_of_refinement Tables.refinement hwv hv.sound store name ids

/-- Of the ids that are deleted, one is listed twice and one is not stored. One document is missing
then, and comes last when it is inserted again. -/
theorem delete_outcome_stocked :
    let ids := ["1", "9", "1"]
    let fox : Document := ⟨"1", "a fox", none, some [.one]⟩
    let m := reached stocked Memory.empty
    let t := reached stocked Tables.empty
    let m' := (offline .default).deleted "animals" ids m
    let t' := (offline .default).deleted "animals" ids t
    (((offline .default).delete "animals" ids).exec m).1 = .ok () ∧
      (((offline .default).delete "animals" ids).exec t).1 = .ok () ∧
      ((Holdings.delete ⟨"default", "animals"⟩ ids).exec t.backend).1 = .ok 1 ∧
      Backend.count ⟨"default", "animals"⟩ t'.backend = .ok 1 ∧
      ((offline .default).deleted "animals" ["9", "1"] t).Indistinct t' ∧
      (((offline .default).insert "animals" false [fox]).exec m').1 = .ok () ∧
      ∃ kept added, Backend.Lists .exact ⟨"default", "animals"⟩ (kept ++ added)
          (((offline .default).insert "animals" false [fox]).exec m').2.backend ∧
        "1" ∉ kept.map (·.id) ∧ "1" ∈ added.map (·.id) := by
  intro ids fox m t m' t'
  have hm : (((offline .default).delete "animals" ids).exec m).1 = .ok () := by decide +kernel
  have ht : (((offline .default).delete "animals" ids).exec t).1 = .ok () := by decide +kernel
  have hfox : (((offline .default).insert "animals" false [fox]).exec m').1 = .ok () := by
    decide +kernel
  have hmemory := (delete_outcome (offline .default) "animals" ids).1 m (reachable_reached ..)
  have htables := (delete_outcome (offline .default) "animals" ids).2 t (reachable_reached ..)
  obtain ⟨c, left, n, -, -, hcount, hn, hreport, -, hafter⟩ := htables.counted ht
  obtain rfl : n = 1 := by
    rw [hn]
    decide +kernel
  have htwo : Backend.count ((offline .default).address "animals") t.backend = .ok 2 := by
    decide +kernel
  obtain rfl : left = 1 := by
    have hsum := Except.ok.inj (hcount.symm.trans htwo)
    omega
  refine ⟨hm, ht, hreport, hafter, htables.same ["9", "1"] fun id => by simp [ids, or_comm],
    hfox, ?_⟩
  obtain ⟨_, before, kept, added, -, -, hlists, hupdated, -, hadded⟩ :=
    hmemory.reinserted hm false [fox] hfox
  refine ⟨kept, added, hlists, ?_, hadded fox (List.mem_singleton_self fox) (by decide)⟩
  rw [Document.ids_of_updated hupdated]
  intro hmem
  obtain ⟨d, hd, hid⟩ := List.mem_map.mp hmem
  exact (Documents.mem_without.mp hd).2 (hid ▸ by decide)

end Store

end SemanticStore
