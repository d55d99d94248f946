import SemanticStore.Proofs.Store.Requests

/-!
# What requests ensure

Most of what a request does only reads. `Store.Ensures` collects what has to be known of the parts
that write: adding a collection, replacing and dropping one, writing a batch and taking documents
out. `Store.Ensures.perform` concludes from it what every request ensures, whether it succeeds or
fails, and that it takes one lock at most.
-/

namespace SemanticStore

open SemanticStore.Action

/-! ### Worlds -/

/-- The registry is as it was, or was asked for one lock. -/
def Locks.Grows (l l' : Locks) : Prop := l' = l ∨ ∃ a, l' = (l.handle a).2

namespace World

variable {σ α : Type} {P E : σ → Prop} {l : Locks} {L : Locks → Prop}

theorem onBackend_spec {x : Action σ α} {Q : α → σ → Prop} (hL : ∀ k, L k → l.Grows k)
    (h : Spec P x Q fun _ => E) :
    Spec (fun w => P w.backend ∧ L w.locks) (onBackend x) (fun a w => Q a w.backend ∧ L w.locks)
      fun _ w => E w.backend ∧ l.Grows w.locks := by
  refine Spec.within fun w hw s hs => ?_
  have := h s (hs ▸ hw.1)
  rcases hx : x.exec s with ⟨e | a, s'⟩ <;> rw [hx] at this
  · exact ⟨this, hL _ hw.2⟩
  · exact ⟨this, hw.2⟩

theorem onCalls_spec (x : Action Calls α) (hL : ∀ k, L k → l.Grows k) (hPE : ∀ s, P s → E s) :
    Spec (fun w : World σ => P w.backend ∧ L w.locks) (onCalls x)
      (fun _ w => P w.backend ∧ L w.locks) fun _ w => E w.backend ∧ l.Grows w.locks := by
  refine Spec.within fun w hw s _ => ?_
  rcases x.exec s with ⟨e | a, s'⟩
  · exact ⟨hPE _ hw.1, hL _ hw.2⟩
  · exact hw

theorem lock_spec (a : Address) {F : Fault → World σ → Prop} :
    Spec (fun w : World σ => P w.backend ∧ w.locks = l) (lock a)
      (fun _ w => P w.backend ∧ l.Grows w.locks) F := by
  rintro w ⟨hP, rfl⟩
  exact ⟨hP, .inr ⟨a, rfl⟩⟩

end World

variable {σ : Type} [Backend σ] {P : σ → Prop} {a : Address} {c : Collection}

namespace Holdings

/-! ### Reading holdings -/

theorem refuseDuplicates_spec (documents : List Document) : ∀ seen,
    Spec P (refuseDuplicates a c seen documents) (fun _ => P) fun _ => P := by
  induction documents with
  | nil => exact fun _ => Spec.pure_keeps ()
  | cons d rest ih =>
    intro seen
    unfold refuseDuplicates
    split
    · exact Spec.fail_keeps _
    · refine (Spec.read_keeps _).bind fun b => ?_
      cases b with
      | true => exact Spec.fail_keeps _
      | false => exact ih _

theorem merge_spec (documents : List Document) :
    Spec P (merge a documents) (fun _ => P) fun _ => P := by
  induction documents with
  | nil => exact Spec.pure_keeps _
  | cons d rest ih =>
    unfold merge
    refine (Spec.read_keeps _).bind fun stored => ?_
    refine ih.bind fun r => ?_
    cases stored with
    | none => exact Spec.pure_keeps _
    | some old => exact Spec.pure_keeps _

theorem select_spec (ids : Option (List String)) :
    Spec P (select a ids) (fun _ => P) fun _ => P := by
  unfold select
  refine (Spec.read_keeps _).bind fun ds => ?_
  cases ids with
  | none => exact Spec.pure_keeps _
  | some ids => exact Spec.pure_keeps _

theorem retrieve_spec (queries : List Embedding) (limit : ℕ) (threshold : Option Scalar) :
    Spec P (retrieve a c queries limit threshold) (fun _ => P) fun _ => P := by
  unfold retrieve
  refine (Spec.lift_keeps _).bind fun _ => ?_
  refine (Spec.read_keeps _).bind fun ds => ?_
  exact Spec.pure_keeps _

/-! ### Writing a batch -/

/-- Checks a batch and writes it. -/
def write (a : Address) (c : Collection) (documents : List Document) : Action σ Unit := do
  settle a c documents
  putAll a documents

variable {Q E : σ → Prop}

/-- An insertion writes its batch, or nothing. -/
theorem insert_spec (hPQ : ∀ s, P s → Q s) (hPE : ∀ s, P s → E s)
    (hw : ∀ documents, Spec P (write a c documents) (fun _ => Q) fun _ => E) (replacing : Bool)
    (documents : List Document) :
    Spec P (insert a c replacing documents) (fun _ => Q) fun _ => E := by
  unfold insert
  cases documents with
  | nil => exact Spec.pure hPQ
  | cons d rest =>
    cases replacing with
    | true => exact hw (d :: rest)
    | false =>
      exact ((refuseDuplicates_spec (d :: rest) []).conseq (fun _ => id) (fun _ _ => id)
        fun _ => hPE).bind fun _ => hw (d :: rest)

theorem update_spec (hPQ : ∀ s, P s → Q s) (hPE : ∀ s, P s → E s)
    (hw : ∀ documents, Spec P (write a c documents) (fun _ => Q) fun _ => E)
    (documents : List Document) : Spec P (update a c documents) (fun _ => Q) fun _ => E := by
  unfold update
  cases documents with
  | nil => exact Spec.pure hPQ
  | cons d rest =>
    refine ((merge_spec (d :: rest)).conseq (fun _ => id) (fun _ _ => id) fun _ => hPE).bind ?_
    rintro ⟨missing, merged⟩
    cases missing with
    | nil => exact hw merged
    | cons id ids =>
      intro s hs
      exact hPE s hs

end Holdings

namespace Store

variable {store : Store} {now : Timestamp} {name : String} {I Q E : σ → Prop} {l : Locks}

/-- There is a collection with this descriptor. -/
def Shown (a : Address) (c : Collection) (s : σ) : Prop := Backend.collection? a s = .ok (some c)

/-- What the writing parts of requests to a store ensure: from a state with `I`, they end in `Q` or
fail in `E`. -/
structure Ensures (store : Store) (now : Timestamp) (I Q E : σ → Prop) : Prop where
  done : ∀ s, I s → Q s
  failed : ∀ s, I s → E s
  add name : Spec (fun s => I s ∧ Backend.collection? (store.address name) s = .ok none)
    (store.add now name) (fun _ => Q) fun _ => E
  replace name c : Spec (fun s => I s ∧ Shown (store.address name) c s)
    (do let _ ← Action.change (Backend.drop (store.address name)); store.add now name)
    (fun _ => Q) fun _ => E
  drop name : Spec I (.change (Backend.drop (store.address name))) (fun _ => Q) fun _ => E
  write name c documents : Spec (fun s => I s ∧ Shown (store.address name) c s)
    (Holdings.write (store.address name) c documents) (fun _ => Q) fun _ => E
  delete name c ids : Spec (fun s => I s ∧ Shown (store.address name) c s)
    (Holdings.delete (store.address name) ids) (fun _ => Q) fun _ => E

/-! ### The operations of a store -/

theorem find_spec (name : String) :
    Spec P (store.find name) (fun c s => P s ∧ Shown (store.address name) c s) fun _ => P := by
  unfold find
  refine (Spec.read_found _).bind fun c => ?_
  cases c with
  | none => exact Spec.fail fun _ h => h.1
  | some c => exact Spec.pure fun _ hs => hs

/-! ### Requests that only read -/

omit [Backend σ] in
lemma reply_spec {α : Type} {x : Action (World σ) α} {P Q E : World σ → Prop}
    (hx : Spec P x (fun _ => Q) fun _ => E) (F : α → Reply) :
    Spec P (do return F (← x)) (fun _ => Q) fun _ => E :=
  hx.bind fun _ => Spec.pure_keeps _

/-- A collection that is found, and an action on its documents. -/
theorem onHoldings_spec (hPE : ∀ s, P s → E s) (name : String) {α : Type}
    {x : Address → Action σ α}
    (hx : ∀ c, Spec (fun s => P s ∧ Shown (store.address name) c s) (x (store.address name))
      (fun _ => Q) fun _ => E) :
    Spec (fun w => P w.backend ∧ w.locks = l) (store.onHoldings name x)
      (fun _ w => Q w.backend ∧ l.Grows w.locks) fun _ w => E w.backend ∧ l.Grows w.locks := by
  unfold Store.onHoldings
  refine (World.lock_spec _).bind fun _ => ?_
  refine (World.onBackend_spec (fun _ => id)
    ((find_spec name).conseq (fun _ => id) (fun _ _ => id) fun _ => hPE)).bind fun c => ?_
  exact World.onBackend_spec (fun _ => id) (hx c)

theorem retrieve_spec (name : String) (queries : List String) (limit : Option ℕ)
    (threshold : Option Scalar) :
    Spec (fun w => P w.backend ∧ w.locks = l) (store.retrieve name queries limit threshold)
      (fun _ w => P w.backend ∧ l.Grows w.locks) fun _ w => P w.backend ∧ l.Grows w.locks := by
  have hfind : Spec P (store.find name) (fun _ => P) fun _ => P :=
    (find_spec name).conseq (fun _ => id) (fun _ _ => And.left) fun _ _ => id
  unfold Store.retrieve
  refine (World.onBackend_spec (L := (· = l)) (fun _ => .inl) hfind).bind fun _ => ?_
  refine (World.onCalls_spec _ (fun _ => .inl) fun _ => id).bind fun embeddings => ?_
  refine (World.lock_spec _).bind fun _ => ?_
  refine (World.onBackend_spec (fun _ => id) hfind).bind fun c => ?_
  exact World.onBackend_spec (fun _ => id) (Holdings.retrieve_spec embeddings _ threshold)

/-- **A request that does not write leaves the backend as it is**, and takes one lock at most. -/
theorem perform_reads (r : Request) (hr : r.written? = none) :
    Spec (fun w => P w.backend ∧ w.locks = l) (r.perform store now)
      (fun _ w => P w.backend ∧ l.Grows w.locks) fun _ w => P w.backend ∧ l.Grows w.locks := by
  cases r with
  | describe name =>
    exact reply_spec ((World.lock_spec _).bind fun _ => World.onBackend_spec (fun _ => id)
      ((find_spec name).conseq (fun _ => id) (fun _ _ => And.left) fun _ _ => id)) _
  | names =>
    refine reply_spec (Spec.bind (World.onBackend_spec (L := (· = l)) (fun _ => .inl)
      (Spec.read_keeps _)) fun _ => ?_) _
    exact Spec.pure fun _ hw => ⟨hw.1, .inl hw.2⟩
  | hasCollection name =>
    have hread : Spec (fun w => P w.backend ∧ w.locks = l) (store.hasCollection (σ := σ) name)
        (fun _ w => P w.backend ∧ w.locks = l) fun _ w => P w.backend ∧ l.Grows w.locks :=
      World.onBackend_spec (L := (· = l)) (fun _ => .inl) (Spec.read_keeps _)
    exact hread.bind fun _ => Spec.pure fun _ hw => ⟨hw.1, .inl hw.2⟩
  | select name ids =>
    exact reply_spec (onHoldings_spec (fun _ => id) name fun c =>
      (Holdings.select_spec ids).pre fun _ => And.left) _
  | count name =>
    exact reply_spec (onHoldings_spec (fun _ => id) name fun c =>
      (Spec.read_keeps _).pre fun _ => And.left) _
  | retrieve name queries limit threshold =>
    exact reply_spec (retrieve_spec name queries limit threshold) _
  | search name query =>
    exact reply_spec ((retrieve_spec name [query] none none).bind fun _ => Spec.pure_keeps _) _
  | create => cases hr
  | drop => cases hr
  | insert => cases hr
  | update => cases hr
  | delete => cases hr

/-! ### Requests that write -/

namespace Ensures

theorem createIn (h : Ensures store now I Q E) (name : String) (overwrite reuse : Bool) :
    Spec I (store.createIn now name overwrite reuse) (fun _ => Q) fun _ => E := by
  unfold Store.createIn
  cases Text.isBlankText name with
  | true =>
    intro s hs
    exact h.failed s hs
  | false =>
    have hfound := (Spec.read_found (Backend.collection? (store.address name))).conseq
      (fun _ => id) (fun _ _ => id) fun _ => h.failed
    refine hfound.bind fun c => ?_
    cases c with
    | none => exact h.add name
    | some c =>
      cases overwrite with
      | true => exact h.replace name c
      | false =>
        cases reuse with
        | true => exact Spec.pure fun s hs => h.done s hs.1
        | false => exact Spec.fail fun s hs => h.failed s hs.1

/-- A batch is looked at, embedded and written under the lock. -/
theorem index (h : Ensures store now I Q E) (name : String) (documents : List Document)
    {write : Address → Collection → List Document → Action σ Unit}
    (hw : ∀ c documents, Spec (fun s => I s ∧ Shown (store.address name) c s)
      (write (store.address name) c documents) (fun _ => Q) fun _ => E) :
    Spec (fun w => I w.backend ∧ w.locks = l) (store.index name documents write)
      (fun _ w => Q w.backend ∧ l.Grows w.locks) fun _ w => E w.backend ∧ l.Grows w.locks := by
  unfold Store.index
  refine (World.onBackend_spec (L := (· = l)) (fun _ => .inl)
    ((find_spec name).conseq (fun _ => id) (fun _ _ => And.left) fun _ => h.failed)).bind fun _ => ?_
  refine (World.onCalls_spec _ (fun _ => .inl) h.failed).bind fun prepared => ?_
  refine (World.lock_spec _).bind fun _ => ?_
  refine (World.onBackend_spec (fun _ => id)
    ((find_spec name).conseq (fun _ => id) (fun _ _ => id) fun _ => h.failed)).bind fun c => ?_
  exact World.onBackend_spec (fun _ => id) (hw c prepared)

/-- **What the writing parts ensure is ensured by every request, which takes one lock at most.** -/
theorem perform (h : Ensures store now I Q E) (r : Request) :
    Spec (fun w => I w.backend ∧ w.locks = l) (r.perform store now)
      (fun _ w => Q w.backend ∧ l.Grows w.locks) fun _ w => E w.backend ∧ l.Grows w.locks := by
  -- what only reads ends in a state with `I`, which is one with `Q` and with `E`
  have hreads (hr : r.written? = none) : Spec (fun w => I w.backend ∧ w.locks = l)
      (r.perform store now) (fun _ w => Q w.backend ∧ l.Grows w.locks)
      fun _ w => E w.backend ∧ l.Grows w.locks :=
    (perform_reads r hr).conseq (fun _ => id) (fun _ w hw => ⟨h.done _ hw.1, hw.2⟩)
      fun _ w hw => ⟨h.failed _ hw.1, hw.2⟩
  cases r with
  | create name overwrite reuse =>
    exact reply_spec ((World.lock_spec _).bind fun _ =>
      World.onBackend_spec (fun _ => id) (h.createIn name overwrite reuse)) _
  | drop name =>
    have hdrop : Spec (fun w => I w.backend ∧ w.locks = l) (store.drop (σ := σ) name)
        (fun _ w => Q w.backend ∧ l.Grows w.locks) fun _ w => E w.backend ∧ l.Grows w.locks :=
      (World.lock_spec _).bind fun _ =>
        (World.onBackend_spec (fun _ => id) (h.drop name)).bind fun _ => Spec.pure_keeps _
    exact reply_spec hdrop fun _ => .done
  | insert name replacing documents =>
    exact reply_spec (h.index name documents fun c documents =>
      Holdings.insert_spec (fun s hs => h.done s hs.1) (fun s hs => h.failed s hs.1)
        (h.write name c) replacing documents) fun _ => .done
  | update name documents =>
    exact reply_spec (h.index name documents fun c documents =>
      Holdings.update_spec (fun s hs => h.done s hs.1) (fun s hs => h.failed s hs.1)
        (h.write name c) documents) fun _ => .done
  | delete name ids =>
    have hdelete : Spec (fun w => I w.backend ∧ w.locks = l) (store.delete (σ := σ) name ids)
        (fun _ w => Q w.backend ∧ l.Grows w.locks) fun _ w => E w.backend ∧ l.Grows w.locks :=
      (onHoldings_spec (x := fun a => Holdings.delete a ids) h.failed name
        fun c => h.delete name c ids).bind fun _ => Spec.pure_keeps _
    exact reply_spec hdelete fun _ => .done
  | describe => exact hreads rfl
  | names => exact hreads rfl
  | hasCollection => exact hreads rfl
  | select => exact hreads rfl
  | count => exact hreads rfl
  | retrieve => exact hreads rfl
  | search => exact hreads rfl

end Ensures

/-- The writes of a backend at an address preserve a property. -/
structure Preserves (a : Address) (I : σ → Prop) : Prop where
  create {c s s'} (hs : I s) (h : Backend.create a c s = .ok s') : I s'
  redescribe {c s s'} (hs : I s) (h : Backend.redescribe a c s = .ok s') : I s'
  drop {b s s'} (hs : I s) (h : Backend.drop a s = .ok (b, s')) : I s'
  put {d s s'} (hs : I s) (h : Backend.put a d s = .ok s') : I s'
  remove {id b s s'} (hs : I s) (h : Backend.remove a id s = .ok (b, s')) : I s'

theorem add_spec
    (h : ∀ {c s s'}, I s → Backend.create (store.address name) c s = .ok s' → I s') :
    Spec I (store.add now name) (fun _ => I) fun _ => I :=
  (Spec.write_keeps fun _ _ => h).bind fun _ => Spec.pure_keeps _

theorem dropped_spec (h : ∀ {b s s'}, I s → Backend.drop a s = .ok (b, s') → I s') :
    Spec I (.change (Backend.drop a)) (fun _ => I) fun _ => I :=
  Spec.change_keeps fun _ _ _ => h

theorem deleted_spec (h : ∀ {id b s s'}, I s → Backend.remove a id s = .ok (b, s') → I s')
    (ids : List String) : Spec I (Holdings.delete a ids) (fun _ => I) fun _ => I := by
  induction ids with
  | nil => exact Spec.pure_keeps _
  | cons i rest ih =>
    refine (Spec.change_keeps fun _ _ _ => h).bind fun found => ?_
    refine ih.bind fun more => ?_
    exact Spec.pure_keeps _

namespace Preserves

theorem write (h : Preserves a I) (documents : List Document) :
    Spec I (Holdings.write a c documents) (fun _ => I) fun _ => I := by
  have hput (documents : List Document) :
      Spec I (Holdings.putAll a documents) (fun _ => I) fun _ => I := by
    induction documents with
    | nil => exact Spec.pure_keeps _
    | cons d rest ih =>
      exact (Spec.write_keeps fun _ _ => h.put).bind fun _ => ih
  unfold Holdings.write Holdings.settle
  refine Spec.bind (Q := fun _ => I) ?_ fun _ => hput documents
  refine (Spec.lift_keeps _).bind fun dimension => ?_
  split
  · exact Spec.write_keeps fun _ _ => h.redescribe
  · exact Spec.pure_keeps _

/-- What the writes at the addresses of a store preserve is kept by its requests. -/
theorem ensures (h : ∀ name, Preserves (store.address name) I) : store.Ensures now I I I where
  done _ := id
  failed _ := id
  add name := (add_spec (h name).create).pre fun _ => And.left
  replace name _ := ((dropped_spec (h name).drop).pre fun _ => And.left).bind fun _ =>
    add_spec (h name).create
  drop name := dropped_spec (h name).drop
  write name _ documents := ((h name).write documents).pre fun _ => And.left
  delete name _ ids := (deleted_spec (h name).remove ids).pre fun _ => And.left

end Preserves

/-- What the writing parts of a call keep is kept by the call. -/
theorem Ensures.after {c : Call} (h : c.store.Ensures c.now I I I) {w : World σ} (hw : I w.backend) :
    I (c.after w).backend := by
  have hspec := h.perform c.request (l := w.locks) w ⟨hw, rfl⟩
  unfold Call.after Call.perform
  rcases hx : (c.request.perform c.store c.now).exec w with ⟨e | r, w'⟩ <;> rw [hx] at hspec
  · exact hspec.1
  · exact hspec.1

/-- What holds of a backend at first and is kept by the writing parts of requests, holds whenever it
is reached. -/
theorem Reachable.invariant {s : σ} (hs : I s)
    (h : ∀ (store : Store) (now : Timestamp), store.Ensures now I I I) {w : World σ}
    (hw : Reachable s w) : I w.backend := by
  induction hw with
  | opened => exact hs
  | after _ c ih => exact (h c.store c.now).after ih

end Store

end SemanticStore
