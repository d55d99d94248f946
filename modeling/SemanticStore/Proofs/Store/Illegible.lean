import SemanticStore.Proofs.Store.Ensures
import SemanticStore.Proofs.Store.Legible

/-!
# What is written on tables and not read again

The writer of bodies takes metadata of any depth and the reader does not. A document whose body is
not read is taken like any other, and from then on the documents of its collection are not read.

* `Catalog.documents_unread`: one document that is not read keeps its collection from being read.
* `Store.select_unread`: when an insertion has taken such a document, the next reading fails.
* `Store.select_unread_tower`: this happens.
-/

namespace SemanticStore

open SemanticStore.Action

namespace Documents

variable {d e : Document} {l : List Document}

lemma mem_put_self (d : Document) (l : List Document) : d ∈ put d l := by
  induction l with
  | nil => exact List.mem_singleton_self d
  | cons d' l ih =>
    rw [put_cons]
    split
    · exact List.mem_cons_self ..
    · exact List.mem_cons_of_mem _ ih

lemma mem_put_of_ne (he : e ∈ l) (hne : e.id ≠ d.id) : e ∈ put d l := by
  induction l with
  | nil => cases he
  | cons d' l ih =>
    rw [put_cons]
    split
    · rename_i hd'
      refine List.mem_cons_of_mem _ ((List.mem_cons.mp he).resolve_left ?_)
      rintro rfl
      exact hne hd'
    · exact (List.mem_cons.mp he).elim (· ▸ List.mem_cons_self ..) fun he =>
        List.mem_cons_of_mem _ (ih he)

end Documents

lemma Fidelity.isSerialization_of_document {d : Document} {e : Fault}
    (h : textual.document d = .error e) : e.isSerialization = true := by
  unfold document Body.decode at h
  dsimp only at h
  split at h
  · cases h
  · cases h
    rfl

namespace Catalog

variable {f : Fidelity} {k : Catalog f} {a : Address} {c : Collection} {documents : List Document}

/-- There is a collection at the address, and it holds these documents. -/
def Holds (a : Address) (documents : List Document) (k : Catalog f) : Prop :=
  ∃ h, Keyed.find? a k.holdings = some h ∧ ∀ d ∈ documents, d ∈ h.documents

theorem Holds.put {d : Document} {k' : Catalog f} (hk : k.Holds a documents)
    (hd : d.id ∉ documents.map (·.id)) (h : Backend.put a d k = .ok k') :
    k'.Holds a (documents ++ [d]) := by
  obtain ⟨h₀, hh₀, hdocs⟩ := hk
  obtain ⟨h₁, hh₁, rfl⟩ := holding_map_eq_ok.mp h
  obtain rfl := Option.some.inj (hh₀.symm.trans hh₁)
  refine ⟨_, Keyed.find?_put_self, fun e he => ?_⟩
  rcases List.mem_append.mp he with he | he
  · refine Documents.mem_put_of_ne (hdocs e he) fun heq => hd ?_
    exact heq ▸ List.mem_map_of_mem (f := fun d : Document => d.id) he
  · rw [List.mem_singleton.mp he]
    exact Documents.mem_put_self ..

theorem Holds.redescribe {k' : Catalog f} (hk : k.Holds a documents)
    (h : Backend.redescribe a c k = .ok k') : k'.Holds a documents := by
  obtain ⟨h₀, hh₀, hdocs⟩ := hk
  obtain ⟨h₁, hh₁, rfl⟩ := holding_map_eq_ok.mp h
  obtain rfl := Option.some.inj (hh₀.symm.trans hh₁)
  exact ⟨_, Keyed.find?_put_self, hdocs⟩

theorem holds_of_shown (hc : Store.Shown a c k) : k.Holds a [] := by
  obtain ⟨h, hh, -⟩ := exists_of_collection? hc
  exact ⟨h, hh, fun d hd => absurd hd List.not_mem_nil⟩

lemma isSerialization_of_collection? {k : Catalog .textual} {e : Fault}
    (h : Backend.collection? a k = .error e) : e.isSerialization = true := by
  have h : Catalog.collection? a k = .error e := h
  unfold Catalog.collection? Catalog.snapshot Fidelity.collection at h
  cases hh : Keyed.find? a k.holdings with
  | none =>
    rw [hh] at h
    cases h
  | some h₀ =>
    rw [hh] at h
    dsimp only at h
    split at h
    · cases h
      rfl
    · cases h

/-- **One document that is not read keeps its collection from being read.** -/
theorem documents_unread {k : Catalog .textual} {d : Document} (hk : k.Holds a documents)
    (hd : d ∈ documents) (hunread : Body.decode? (Body.encode d.content d.metadata) = none) :
    ∃ e, Backend.documents a k = .error e ∧ e.isSerialization = true := by
  obtain ⟨h, hh, hdocs⟩ := hk
  have hread : Backend.documents a k = h.documents.mapM Fidelity.textual.document := by
    show (holding a k >>= fun h => h.documents.mapM Fidelity.textual.document) = _
    rw [holding_of_find? hh]
    rfl
  rw [hread]
  cases hall : h.documents.mapM Fidelity.textual.document with
  | error e =>
    obtain ⟨d', -, hd'⟩ := exists_of_mapM_eq_error hall
    exact ⟨e, rfl, Fidelity.isSerialization_of_document hd'⟩
  | ok ds =>
    obtain ⟨d', -, hd'⟩ := exists_mem_of_forall₂ (forall₂_of_mapM_eq_ok hall) (hdocs d hd)
    unfold Fidelity.document Body.decode at hd'
    dsimp only at hd'
    rw [hunread] at hd'
    cases hd'

end Catalog

/-! ### Writing a batch -/

namespace Holdings

variable {f : Fidelity} {a : Address} {c : Collection} {documents : List Document}

open Catalog (Holds)

theorem putAll_holds (documents : List Document) : ∀ {written : List Document},
    ((written ++ documents).map (·.id)).Nodup →
    Spec (Holds (f := f) a written) (putAll a documents)
      (fun _ => Holds a (written ++ documents)) fun _ _ => True := by
  induction documents with
  | nil =>
    intro written _
    exact Spec.pure fun k hk => (List.append_nil written).symm ▸ hk
  | cons d rest ih =>
    intro written hids
    rw [List.append_cons] at hids ⊢
    have hnew : d.id ∉ written.map (·.id) := by
      rw [List.map_append, List.map_append, List.nodup_append] at hids
      have hdisjoint := (List.nodup_append.mp hids.1).2.2
      exact fun hmem => hdisjoint _ hmem d.id (List.mem_singleton_self _) rfl
    refine (Spec.write (Q := fun _ => Holds a (written ++ [d])) ?_ ?_).bind fun _ => ih hids
    · exact fun k k' hk hput => hk.put hnew hput
    · exact fun _ _ _ _ => trivial

theorem settle_holds (documents : List Document) :
    Spec (Holds (f := f) a []) (settle a c documents) (fun _ => Holds a []) fun _ _ => True := by
  have hlift : Spec (Holds (f := f) a []) (.lift (commonDimension c.dimension documents))
      (fun _ => Holds a []) fun _ _ => True :=
    (Spec.lift_keeps _).conseq (fun _ => id) (fun _ _ => id) fun _ _ _ => trivial
  unfold settle
  refine hlift.bind fun dimension => ?_
  split
  · exact Spec.write (fun k k' hk h => hk.redescribe h) fun _ _ _ _ => trivial
  · exact Spec.pure_keeps _

theorem insert_holds (replacing : Bool) (hids : (documents.map (·.id)).Nodup) :
    Spec (Holds (f := f) a []) (insert a c replacing documents) (fun _ => Holds a documents)
      fun _ _ => True := by
  have hwrite : Spec (Holds (f := f) a []) (do settle a c documents; putAll a documents)
      (fun _ => Holds a documents) fun _ _ => True :=
    (settle_holds documents).bind fun _ => putAll_holds documents hids
  unfold insert
  cases documents with
  | nil => exact Spec.pure_keeps _
  | cons d rest =>
    cases replacing with
    | true => exact hwrite
    | false =>
      exact ((refuseDuplicates_spec (d :: rest) []).conseq (fun _ => id) (fun _ _ => id)
        fun _ _ _ => trivial).bind fun _ => hwrite

end Holdings

/-! ### Worlds -/

namespace World

variable {σ α : Type} {P : σ → Prop} {E : Fault → Prop}

lemma onBackend_result {x : Action σ α} {Q : α → σ → Prop} (h : Spec P x Q fun e _ => E e) :
    Spec (fun w : World σ => P w.backend) (onBackend x) (fun a w => Q a w.backend)
      fun e _ => E e := by
  refine Spec.within fun w hw s hs => ?_
  have := h s (hs ▸ hw)
  rcases hx : x.exec s with ⟨e | a, s'⟩ <;> rw [hx] at this <;> exact this

lemma onCalls_result {x : Action Calls α} {Q : α → Prop} (hE : ∀ e, E e)
    (h : ∀ calls a, (x.exec calls).1 = .ok a → Q a) :
    Spec (fun _ : World σ => True) (onCalls x) (fun a _ => Q a) fun e _ => E e := by
  refine Spec.within fun w _ s _ => ?_
  rcases hx : x.exec s with ⟨e | a, s'⟩
  · exact hE e
  · exact h s a (by rw [hx])

lemma lock_result (a : Address) :
    Spec (fun w : World σ => P w.backend) (lock a) (fun _ w => P w.backend) fun e _ => E e :=
  fun _ hw => hw

end World

namespace Store

variable {store : Store} {name : String} {documents : List Document} {d : Document}

open Catalog (Holds)

theorem insert_holds {f : Fidelity} (store : Store) (name : String) (replacing : Bool)
    (hids : (documents.map (·.id)).Nodup) :
    Spec (fun _ : World (Catalog f) => True) (store.insert name replacing documents)
      (fun _ w => ∃ ds, ds.map Document.bare = documents.map Document.bare ∧
        w.backend.Holds (store.address name) ds) fun _ _ => True := by
  have hfind {P : Catalog f → Prop} : Spec P (store.find name)
      (fun c k => P k ∧ Shown (store.address name) c k) fun _ _ => True :=
    (find_spec name).conseq (fun _ => id) (fun _ _ => id) fun _ _ _ => trivial
  unfold insert index
  refine (World.onBackend_result (P := fun _ => True) hfind).bind fun _ => ?_
  refine Spec.bind (Q := fun prepared _ => prepared.map Document.bare = documents.map Document.bare)
    ?_ fun prepared => ?_
  · refine (World.onCalls_result (fun _ => trivial) fun calls prepared h => ?_).pre fun _ _ => trivial
    obtain ⟨found, -, h⟩ := exec_bind_eq_ok.mp h
    cases h
    exact Indexing.map_bare_fill documents found
  · intro w hprepared
    rw [← Document.ids_of_map_bare hprepared] at hids
    have hrest : Spec (fun _ : World (Catalog f) => True)
        (do
          World.lock (store.address name)
          let target ← World.onBackend (store.find name)
          World.onBackend (Holdings.insert (store.address name) target replacing prepared))
        (fun _ w => w.backend.Holds (store.address name) prepared) fun _ _ => True := by
      refine (World.lock_result (P := fun _ => True) _).bind fun _ => ?_
      refine (World.onBackend_result (P := fun _ => True) hfind).bind fun c => ?_
      refine World.onBackend_result (P := fun k => True ∧ Shown (store.address name) c k) ?_
      exact (Holdings.insert_holds replacing hids).pre fun k hk => Catalog.holds_of_shown hk.2
    refine (hrest.conseq (fun _ => id) (fun _ w hw => ?_) fun _ _ => id) w trivial
    exact ⟨prepared, hprepared, hw⟩

/-- A collection that is there is found, unless its time is not read. -/
lemma find_of_holds (documents : List Document) :
    Spec (Holds (f := .textual) (store.address name) documents) (store.find name)
      (fun _ => Holds (store.address name) documents) fun e _ => e.isSerialization = true := by
  have hread : Spec (Holds (f := .textual) (store.address name) documents)
      (.read (Backend.collection? (store.address name)))
      (fun found k => Holds (store.address name) documents k ∧ found ≠ none)
      fun e _ => e.isSerialization = true := by
    refine Spec.read (fun k found hk h => ⟨hk, ?_⟩) fun k e hk h => ?_
    · rintro rfl
      obtain ⟨h₀, hh₀, -⟩ := hk
      have h : Catalog.collection? (store.address name) k = .ok none := h
      unfold Catalog.collection? Catalog.snapshot at h
      rw [hh₀] at h
      cases hc : Fidelity.textual.collection (store.address name) h₀.descriptor with
      | error e => simp [hc, Except.map] at h
      | ok c => simp [hc, Except.map] at h
    · exact Catalog.isSerialization_of_collection? h
  unfold find
  refine hread.bind fun found => ?_
  cases found with
  | none => exact Spec.fail fun _ hk => absurd rfl hk.2
  | some c => exact Spec.pure fun _ hk => hk.1

theorem select_unread_of_holds (hd : d ∈ documents)
    (hunread : Body.decode? (Body.encode d.content d.metadata) = none) :
    Spec (fun w : World (Catalog .textual) => w.backend.Holds (store.address name) documents)
      (store.select name none) (fun _ _ => False) fun e _ => e.isSerialization = true := by
  have hread : Spec (Holds (f := .textual) (store.address name) documents)
      (Holdings.select (store.address name) none) (fun _ _ => False)
      fun e _ => e.isSerialization = true := by
    intro k hk
    obtain ⟨e, he, hserial⟩ := Catalog.documents_unread hk hd hunread
    unfold Holdings.select
    rw [exec_bind, exec_read, he]
    exact hserial
  unfold select onHoldings
  refine (World.lock_result _).bind fun _ => ?_
  refine (World.onBackend_result (find_of_holds documents)).bind fun _ => ?_
  exact World.onBackend_result (Q := fun _ _ => False) hread

/-- **When an insertion on tables has taken a document that is not read, the next reading of the
collection fails.** -/
theorem select_unread (calls : List Call) (store : Store) (name : String) (replacing : Bool)
    {documents : List Document} {d : Document} (hids : (documents.map (·.id)).Nodup)
    (hd : d ∈ documents) (hunread : Body.decode? (Body.encode d.content d.metadata) = none)
    (hok : ((store.insert name replacing documents).exec (reached calls Tables.empty)).1 = .ok ()) :
    ∃ text, ((store.select name none).exec
      ((store.insert name replacing documents).exec (reached calls Tables.empty)).2).1 =
        .error (.serialization text) := by
  -- on the catalog of texts, the insertion and the reading go as on tables
  have hrel := related_reached Tables.refinement Tables.shows_empty calls
  obtain ⟨hinsert, hafter⟩ := insert_sim store Tables.refinement trivial name replacing documents hrel
  have hheld := insert_holds store name replacing hids (reached calls (Catalog.empty .textual)) trivial
  rw [hok] at hinsert
  obtain ⟨_, hok', -⟩ := hinsert.exists_ok
  rcases hx : (store.insert name replacing documents).exec
    (reached calls (Catalog.empty .textual)) with ⟨e | u, w⟩ <;> rw [hx] at hok' hafter hheld
  · cases hok'
  · obtain ⟨ds, hkept, hholds⟩ := hheld
    obtain ⟨d', hd', -, hcontent, hmetadata⟩ := Document.exists_of_map_bare hkept hd
    rw [← hcontent, ← hmetadata] at hunread
    have hselect := select_unread_of_holds hd' hunread w hholds
    have hagree := (select_sim store Tables.refinement trivial name none hafter).1
    rcases hy : (store.select name none).exec w with ⟨e | l, w'⟩ <;> rw [hy] at hselect hagree
    · obtain ⟨text, rfl⟩ := Fault.exists_of_isSerialization hselect
      exact ⟨text, hagree.eq_error⟩
    · exact hselect.elim

/-- Metadata of 126 arrays in an object is taken, and the collection is not read any more. -/
theorem select_unread_tower :
    let store := offline .default
    let d : Document := ⟨"1", "a fox", some (Body.tower 126), some [.one]⟩
    let w := reached [⟨store, instant 0, .create "animals" false false⟩] Tables.empty
    ((store.insert "animals" false [d]).exec w).1 = .ok () ∧
      ∃ text, ((store.select "animals" none).exec
        ((store.insert "animals" false [d]).exec w).2).1 = .error (.serialization text) := by
  intro store d w
  have hok : ((store.insert "animals" false [d]).exec w).1 = .ok () := by decide +kernel
  have hunread : Body.decode? (Body.encode d.content d.metadata) = none :=
    Body.decode?_of_not_legible (Body.plain_tower 126)
      (mt (Body.legible_tower 126).mp (lt_irrefl 126)) d.content
  exact ⟨hok, select_unread _ store "animals" false (List.nodup_singleton _)
    (List.mem_singleton_self d) hunread hok⟩

end Store

end SemanticStore
