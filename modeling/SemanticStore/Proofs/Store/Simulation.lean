import SemanticStore.Proofs.Store.Requests

/-!
# Stores on backends that answer alike

A simulation of backends carries over to stores: requests to a store in the scope of the simulation
result in the same replies on both backends, but for the times of descriptors.

* `Store.perform_sim`: one request.
* `Store.Reachable.related`: a world reached on a backend is related to one reached on the other,
  and the same calls lead to related worlds (`Store.related_reached`).
-/

namespace SemanticStore

open SemanticStore.Action

variable {σ τ : Type} [Backend σ] [Backend τ] {scope : String → Prop}
  {T : Timestamp → Timestamp → Prop} {R : σ → τ → Prop} {a : Address} {c d : Collection}

namespace Holdings

/-! ### The holdings of a collection -/

theorem settle_sim (h : Backend.Simulation scope T R) (ha : scope a.partition) (hcd : c.Alike T d)
    (documents : List Document) : Sim R Eq (settle a c documents) (settle a d documents) := by
  unfold settle
  rw [← hcd.dimension]
  refine (Sim.lift_eq _).bind ?_
  rintro dimension _ rfl
  cases c.dimension with
  | some n => exact Sim.pure rfl
  | none =>
    cases dimension with
    | none => exact Sim.pure rfl
    | some n =>
      refine Sim.write rfl fun s t hst => h.redescribe hst ha ?_
      exact ⟨hcd.name, rfl, hcd.metric, hcd.createdAt, hcd.count⟩

theorem putAll_sim (h : Backend.Simulation scope T R) (ha : scope a.partition)
    (documents : List Document) :
    Sim R Eq (putAll (σ := σ) a documents) (putAll (σ := τ) a documents) := by
  induction documents with
  | nil => exact Sim.pure rfl
  | cons d rest ih =>
    exact (Sim.write (Q := Eq) rfl fun s t hst => h.put d hst ha).bind fun _ _ _ => ih

theorem write_sim (h : Backend.Simulation scope T R) (ha : scope a.partition) (hcd : c.Alike T d)
    (documents : List Document) :
    Sim R Eq (do settle a c documents; putAll a documents)
      (do settle a d documents; putAll a documents) :=
  (settle_sim h ha hcd documents).bind fun _ _ _ => putAll_sim h ha documents

theorem refuseDuplicates_sim (h : Backend.Simulation scope T R) (ha : scope a.partition)
    (hcd : c.Alike T d) (documents : List Document) :
    ∀ seen, Sim R Eq (refuseDuplicates (σ := σ) a c seen documents)
      (refuseDuplicates (σ := τ) a d seen documents) := by
  induction documents with
  | nil => exact fun _ => Sim.pure rfl
  | cons e rest ih =>
    intro seen
    unfold refuseDuplicates
    rw [← hcd.name]
    split
    · exact Sim.fail _
    · refine (Sim.read_eq fun s t hst => h.hasDocument e.id hst ha).bind ?_
      rintro stored _ rfl
      cases stored with
      | true => exact Sim.fail _
      | false => exact ih _

theorem insert_sim (h : Backend.Simulation scope T R) (ha : scope a.partition) (hcd : c.Alike T d)
    (replacing : Bool) (documents : List Document) :
    Sim R Eq (insert a c replacing documents) (insert a d replacing documents) := by
  have hwrite := write_sim h ha hcd documents
  unfold insert
  cases documents with
  | nil => exact Sim.pure rfl
  | cons e rest =>
    cases replacing with
    | true => exact hwrite
    | false => exact (refuseDuplicates_sim h ha hcd (e :: rest) []).bind fun _ _ _ => hwrite

theorem merge_sim (h : Backend.Simulation scope T R) (ha : scope a.partition)
    (documents : List Document) :
    Sim R Eq (merge (σ := σ) a documents) (merge (σ := τ) a documents) := by
  induction documents with
  | nil => exact Sim.pure rfl
  | cons d rest ih =>
    unfold merge
    refine (Sim.read_eq fun s t hst => h.document? d.id hst ha).bind ?_
    rintro stored _ rfl
    refine ih.bind ?_
    rintro r _ rfl
    cases stored with
    | none => exact Sim.pure rfl
    | some old => exact Sim.pure rfl

theorem update_sim (h : Backend.Simulation scope T R) (ha : scope a.partition) (hcd : c.Alike T d)
    (documents : List Document) : Sim R Eq (update a c documents) (update a d documents) := by
  unfold update
  cases documents with
  | nil => exact Sim.pure rfl
  | cons e rest =>
    refine (merge_sim h ha (e :: rest)).bind ?_
    rintro ⟨missing, merged⟩ _ rfl
    cases missing with
    | nil => exact write_sim h ha hcd merged
    | cons id ids =>
      rw [← hcd.name]
      intro s t hst
      exact ⟨.error _, hst⟩

theorem delete_sim (h : Backend.Simulation scope T R) (ha : scope a.partition) (ids : List String) :
    Sim R Eq (delete (σ := σ) a ids) (delete (σ := τ) a ids) := by
  induction ids with
  | nil => exact Sim.pure rfl
  | cons id rest ih =>
    unfold delete
    refine (Sim.change (Q := Eq) fun s t hst => h.remove id hst ha).bind ?_
    rintro found _ rfl
    refine ih.bind ?_
    rintro more _ rfl
    exact Sim.pure rfl

theorem select_sim (h : Backend.Simulation scope T R) (ha : scope a.partition)
    (ids : Option (List String)) :
    Sim R Eq (select (σ := σ) a ids) (select (σ := τ) a ids) := by
  unfold select
  refine (Sim.read_eq fun s t hst => h.documents hst ha).bind ?_
  rintro documents _ rfl
  cases ids with
  | none => exact Sim.pure rfl
  | some ids => exact Sim.pure rfl

theorem count_sim (h : Backend.Simulation scope T R) (ha : scope a.partition) :
    Sim R Eq (count (σ := σ) a) (count (σ := τ) a) :=
  Sim.read_eq fun _ _ hst => h.count hst ha

theorem retrieve_sim (h : Backend.Simulation scope T R) (ha : scope a.partition)
    (hcd : c.Alike T d) (queries : List Embedding) (limit : ℕ) (threshold : Option Scalar) :
    Sim R Eq (retrieve a c queries limit threshold) (retrieve a d queries limit threshold) := by
  have hcheck : checkQueries d queries = checkQueries c queries := by
    unfold checkQueries
    rw [hcd.dimension]
  unfold retrieve
  rw [hcheck, ← hcd.metric]
  refine (Sim.lift_eq _).bind fun _ _ _ => ?_
  refine (Sim.read_eq fun s t hst => h.documents hst ha).bind ?_
  rintro documents _ rfl
  exact Sim.pure rfl

end Holdings

/-! ### Worlds -/

/-- Worlds with related backends and the same calls to embedders. -/
def World.Related (R : σ → τ → Prop) (v : World σ) (w : World τ) : Prop :=
  R v.backend w.backend ∧ v.calls = w.calls

namespace World

variable {α β : Type} {Q : α → β → Prop}

omit [Backend σ] [Backend τ] in
theorem onBackend_sim {x : Action σ α} {y : Action τ β} (h : Sim R Q x y) :
    Sim (Related R) Q (onBackend x) (onBackend y) :=
  fun _ _ hvw => ⟨(h hvw.1).1, (h hvw.1).2, hvw.2⟩

omit [Backend σ] [Backend τ] in
theorem onCalls_sim (x : Action Calls α) :
    Sim (Related R) Eq (onCalls (σ := σ) x) (onCalls (σ := τ) x) := by
  rintro v w ⟨hb, hc⟩
  unfold onCalls
  rw [exec_within, exec_within, hc]
  exact ⟨Agree.eq_iff.mpr rfl, hb, rfl⟩

omit [Backend σ] [Backend τ] in
theorem lock_sim (a b : Address) : Sim (Related R) Eq (lock (σ := σ) a) (lock (σ := τ) b) :=
  fun _ _ hvw => ⟨.ok rfl, hvw⟩

end World

namespace Store

variable {store : Store} {now now' : Timestamp}

/-! ### The operations of a store -/

theorem find_sim (h : Backend.Simulation scope T R) (hs : scope store.partition.label)
    (name : String) :
    Sim R (Collection.Alike T) (find (σ := σ) store name) (find (σ := τ) store name) := by
  unfold find
  refine (Sim.read fun s t hst => h.collection? hst hs).bind fun x y hxy => ?_
  cases hxy with
  | none => exact Sim.fail _
  | some hcd => exact Sim.pure hcd

theorem add_sim (h : Backend.Simulation scope T R) (hs : scope store.partition.label)
    (hnow : T now now') (name : String) :
    Sim R (Collection.Alike T) (add (σ := σ) store now name) (add (σ := τ) store now' name) := by
  have hcd : Collection.Alike T (.fresh name store.metric now) (.fresh name store.metric now') :=
    ⟨rfl, rfl, rfl, hnow, rfl⟩
  unfold add
  refine (Sim.write (Q := Eq) rfl fun s t hst => h.create hst hs hcd).bind fun _ _ _ => ?_
  exact Sim.pure hcd

theorem createIn_sim (h : Backend.Simulation scope T R) (hs : scope store.partition.label)
    (hnow : T now now') (name : String) (overwrite reuse : Bool) :
    Sim R (Collection.Alike T) (createIn (σ := σ) store now name overwrite reuse)
      (createIn (σ := τ) store now' name overwrite reuse) := by
  unfold createIn
  cases Text.isBlankText name with
  | true =>
    intro s t hst
    exact ⟨.error _, hst⟩
  | false =>
    refine (Sim.read fun s t hst => h.collection? (a := store.address name) hst hs).bind ?_
    intro x y hxy
    cases hxy with
    | none => exact add_sim h hs hnow name
    | some hcd =>
      cases overwrite with
      | true =>
        refine (Sim.change (Q := Eq) fun s t hst => ?_).bind fun _ _ _ => add_sim h hs hnow name
        exact h.drop (a := store.address name) hst hs
      | false =>
        cases reuse with
        | true => exact Sim.pure hcd
        | false => exact Sim.fail _

theorem create_sim (h : Backend.Simulation scope T R) (hs : scope store.partition.label)
    (hnow : T now now') (name : String) (overwrite reuse : Bool) :
    Sim (World.Related R) (Collection.Alike T) (create (σ := σ) store now name overwrite reuse)
      (create (σ := τ) store now' name overwrite reuse) :=
  (World.lock_sim _ _).bind fun _ _ _ =>
    World.onBackend_sim (createIn_sim h hs hnow name overwrite reuse)

theorem describe_sim (h : Backend.Simulation scope T R) (hs : scope store.partition.label)
    (name : String) :
    Sim (World.Related R) (Collection.Alike T) (describe (σ := σ) store name)
      (describe (σ := τ) store name) :=
  (World.lock_sim _ _).bind fun _ _ _ => World.onBackend_sim (find_sim h hs name)

theorem drop_sim (h : Backend.Simulation scope T R) (hs : scope store.partition.label)
    (name : String) :
    Sim (World.Related R) Eq (drop (σ := σ) store name) (drop (σ := τ) store name) := by
  have hdrop : Sim R (Eq (α := Bool)) (.change (Backend.drop (store.address name)))
      (.change (Backend.drop (store.address name))) :=
    Sim.change fun s t hst => h.drop hst hs
  exact (World.lock_sim _ _).bind fun _ _ _ =>
    (World.onBackend_sim hdrop).bind fun _ _ _ => Sim.pure rfl

theorem names_sim (h : Backend.Simulation scope T R) (hs : scope store.partition.label) :
    Sim (World.Related R) Eq (names (σ := σ) store) (names (σ := τ) store) := by
  refine (World.onBackend_sim (Sim.read fun s t hst => h.collections hst hs)).bind ?_
  intro cs ds hcs
  refine Sim.pure ?_
  induction hcs with
  | nil => rfl
  | cons hcd _ ih => rw [List.map_cons, List.map_cons, hcd.name, ih]

theorem hasCollection_sim (h : Backend.Simulation scope T R) (hs : scope store.partition.label)
    (name : String) :
    Sim (World.Related R) Eq (hasCollection (σ := σ) store name)
      (hasCollection (σ := τ) store name) :=
  World.onBackend_sim (Sim.read_eq fun _ _ hst => h.hasCollection hst hs)

theorem index_sim (h : Backend.Simulation scope T R) (hs : scope store.partition.label)
    (name : String) (documents : List Document)
    {write : Address → Collection → List Document → Action σ Unit}
    {write' : Address → Collection → List Document → Action τ Unit}
    (hw : ∀ c d documents, c.Alike T d →
      Sim R Eq (write (store.address name) c documents) (write' (store.address name) d documents)) :
    Sim (World.Related R) Eq (index store name documents write)
      (index store name documents write') := by
  unfold index
  refine (World.onBackend_sim (find_sim h hs name)).bind fun _ _ _ => ?_
  refine (World.onCalls_sim _).bind ?_
  rintro prepared _ rfl
  refine (World.lock_sim _ _).bind fun _ _ _ => ?_
  refine (World.onBackend_sim (find_sim h hs name)).bind fun c d hcd => ?_
  exact World.onBackend_sim (hw c d prepared hcd)

theorem onHoldings_sim {α : Type} (h : Backend.Simulation scope T R)
    (hs : scope store.partition.label) (name : String) {x : Address → Action σ α}
    {y : Address → Action τ α} (hxy : Sim R Eq (x (store.address name)) (y (store.address name))) :
    Sim (World.Related R) Eq (onHoldings store name x) (onHoldings store name y) :=
  (World.lock_sim _ _).bind fun _ _ _ =>
    (World.onBackend_sim (find_sim h hs name)).bind fun _ _ _ => World.onBackend_sim hxy

theorem insert_sim (store : Store) (h : Backend.Simulation scope T R)
    (hs : scope store.partition.label) (name : String) (replacing : Bool)
    (documents : List Document) :
    Sim (World.Related R) Eq (insert (σ := σ) store name replacing documents)
      (insert (σ := τ) store name replacing documents) :=
  index_sim h hs name documents fun _ _ documents hcd =>
    Holdings.insert_sim (a := store.address name) h hs hcd replacing documents

theorem update_sim (store : Store) (h : Backend.Simulation scope T R)
    (hs : scope store.partition.label) (name : String) (documents : List Document) :
    Sim (World.Related R) Eq (update (σ := σ) store name documents)
      (update (σ := τ) store name documents) :=
  index_sim h hs name documents fun _ _ documents hcd =>
    Holdings.update_sim (a := store.address name) h hs hcd documents

theorem select_sim (store : Store) (h : Backend.Simulation scope T R)
    (hs : scope store.partition.label) (name : String) (ids : Option (List String)) :
    Sim (World.Related R) Eq (select (σ := σ) store name ids) (select (σ := τ) store name ids) :=
  onHoldings_sim (x := fun a => Holdings.select a ids) (y := fun a => Holdings.select a ids) h hs
    name (Holdings.select_sim h hs ids)

theorem delete_sim (store : Store) (h : Backend.Simulation scope T R)
    (hs : scope store.partition.label) (name : String) (ids : List String) :
    Sim (World.Related R) Eq (delete (σ := σ) store name ids) (delete (σ := τ) store name ids) := by
  have hdelete := onHoldings_sim (x := fun a => Holdings.delete a ids)
    (y := fun a => Holdings.delete a ids) h hs name (Holdings.delete_sim h hs ids)
  exact hdelete.bind fun _ _ _ => Sim.pure rfl

theorem retrieve_sim (h : Backend.Simulation scope T R) (hs : scope store.partition.label)
    (name : String) (queries : List String) (limit : Option ℕ) (threshold : Option Scalar) :
    Sim (World.Related R) Eq (retrieve (σ := σ) store name queries limit threshold)
      (retrieve (σ := τ) store name queries limit threshold) := by
  unfold retrieve
  refine (World.onBackend_sim (find_sim h hs name)).bind fun _ _ _ => ?_
  refine (World.onCalls_sim _).bind ?_
  rintro embeddings _ rfl
  refine (World.lock_sim _ _).bind fun _ _ _ => ?_
  refine (World.onBackend_sim (find_sim h hs name)).bind fun c d hcd => ?_
  exact World.onBackend_sim (Holdings.retrieve_sim h hs hcd embeddings _ threshold)

/-! ### Requests -/

omit [Backend σ] [Backend τ] in
lemma reply_sim {α : Type} {x : Action (World σ) α} {y : Action (World τ) α}
    (h : Sim (World.Related R) Eq x y) (F : α → Reply) :
    Sim (World.Related R) (Reply.Alike T) (do return F (← x)) (do return F (← y)) := by
  refine h.bind ?_
  rintro r _ rfl
  exact Sim.pure (.same _)

/-- **A request results in the same reply, but for times, on backends that answer alike.** -/
theorem perform_sim (h : Backend.Simulation scope T R) (hs : scope store.partition.label)
    (hnow : T now now') (r : Request) :
    Sim (World.Related R) (Reply.Alike T) (r.perform (σ := σ) store now)
      (r.perform (σ := τ) store now') := by
  cases r with
  | create name overwrite reuse =>
    exact (create_sim h hs hnow name overwrite reuse).bind fun _ _ hcd => Sim.pure (.collection hcd)
  | describe name => exact (describe_sim h hs name).bind fun _ _ hcd => Sim.pure (.collection hcd)
  | drop name => exact (drop_sim h hs name).bind fun _ _ _ => Sim.pure (.same _)
  | names => exact reply_sim (names_sim h hs) _
  | hasCollection name => exact reply_sim (hasCollection_sim h hs name) _
  | insert name replacing documents =>
    exact (insert_sim store h hs name replacing documents).bind fun _ _ _ => Sim.pure (.same _)
  | update name documents =>
    exact (update_sim store h hs name documents).bind fun _ _ _ => Sim.pure (.same _)
  | delete name ids =>
    exact (delete_sim store h hs name ids).bind fun _ _ _ => Sim.pure (.same _)
  | select name ids =>
    exact reply_sim (select_sim store h hs name ids) _
  | count name =>
    exact reply_sim (onHoldings_sim h hs name (Holdings.count_sim h hs)) _
  | retrieve name queries limit threshold =>
    exact reply_sim (retrieve_sim h hs name queries limit threshold) _
  | search name query =>
    have hw := retrieve_sim h hs name [query] none none
    refine reply_sim (hw.bind ?_) _
    rintro found _ rfl
    exact Sim.pure rfl

/-- Calls that are alike result in replies that are alike, one by one. -/
theorem replies_alike (h : Backend.Simulation (fun _ => True) T R) {calls calls' : List Call}
    (hc : List.Forall₂ (Call.Alike T) calls calls') :
    ∀ {v : World σ} {w : World τ}, World.Related R v w →
      List.Forall₂ (Agree (Reply.Alike T)) (replies calls v) (replies calls' w) := by
  induction hc with
  | nil => exact fun _ => .nil
  | @cons c c' rest rest' hcc _ ih =>
    intro v w hvw
    obtain ⟨store, now, request⟩ := c
    obtain ⟨store', now', request'⟩ := c'
    obtain ⟨rfl, hnow, rfl⟩ := hcc
    obtain ⟨hreply, hafter⟩ := perform_sim h trivial hnow request hvw
    exact .cons hreply (ih hafter)

theorem replies_eq (h : Backend.Refinement R) (calls : List Call) {v : World σ} {w : World τ}
    (hvw : World.Related R v w) : replies calls v = replies calls w := by
  have hc : List.Forall₂ (Call.Alike Eq) calls calls :=
    List.forall₂_same.mpr fun _ _ => ⟨rfl, rfl, rfl⟩
  have halike := replies_alike h hc hvw
  rw [← List.forall₂_eq_eq_eq]
  exact halike.imp fun x y hxy => Agree.eq_iff.mp (hxy.mono fun _ _ => Reply.Alike.eq)

/-- **A world reached on a backend is related to one reached on a backend that refines it.** -/
theorem Reachable.related (h : Backend.Refinement R) {s : σ} {t : τ} (hst : R s t) {v : World σ}
    (hv : Reachable s v) : ∃ w : World τ, Reachable t w ∧ World.Related R v w := by
  induction hv with
  | opened => exact ⟨_, .opened, hst, rfl⟩
  | after _ c ih =>
    obtain ⟨w, hw, hvw⟩ := ih
    exact ⟨c.after w, hw.after c, (perform_sim h trivial rfl c.request hvw).2⟩

/-- **The same calls lead to related worlds.** -/
theorem related_reached (h : Backend.Refinement R) {s : σ} {t : τ} (hst : R s t)
    (calls : List Call) : World.Related R (reached calls s) (reached calls t) := by
  have hfold : ∀ {v : World σ} {w : World τ}, World.Related R v w →
      World.Related R (calls.foldl (fun w c => c.after w) v)
        (calls.foldl (fun w c => c.after w) w) := by
    induction calls with
    | nil => exact id
    | cons c rest ih => exact fun hvw => ih (perform_sim h trivial rfl c.request hvw).2
  exact hfold ⟨hst, rfl⟩

end Store

end SemanticStore
