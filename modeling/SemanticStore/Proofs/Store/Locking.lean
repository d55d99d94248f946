import SemanticStore.Backend.Memory
import SemanticStore.Proofs.Locks
import SemanticStore.Proofs.Store.Histories

/-!
# The locks that calls take

An operation on a collection requests one lock, that of the collection's address; listing names and
asking whether a collection is there need none (`Store.Request.locking`). What is done before the
request and under the lock has nothing to do with the registry (`World.Unlocked`). So to the
registry a run of calls is a run of requests (`Store.requested_afterAll`), and neither dropping nor
replacing a collection is anything to it.

* `World.Requests`: an action requests the locks of some addresses and is otherwise the same on any
  registry.
* `Store.registry_faithful`: locks and addresses belong to each other one to one, in every run of
  requests and along every run of calls.
-/

namespace SemanticStore

open SemanticStore.Action

namespace World

variable {σ α β : Type} {a : Address} {as bs : List Address} {x : Action (World σ) α}
  {f : α → Action (World σ) β} {w : World σ}

/-! ### Actions and the registry -/

/-- The world with another registry. -/
def withLocks (w : World σ) (l : Locks) : World σ := { w with locks := l }

/-- In this world the action requests the locks of these addresses, one after the other. With any
other registry it would do so too, and come to the same end. -/
def Requests (as : List Address) (x : Action (World σ) α) (w : World σ) : Prop :=
  ∀ l, x.exec (w.withLocks l) = ((x.exec w).1, (x.exec w).2.withLocks (l.requested as))

theorem Requests.locks_eq (h : Requests as x w) : (x.exec w).2.locks = w.locks.requested as :=
  congrArg (fun r => r.2.locks) (h w.locks)

theorem Requests.bind {v : α} (hx : Requests as x w) (hv : (x.exec w).1 = .ok v)
    (hf : Requests bs (f v) (x.exec w).2) : Requests (as ++ bs) (x >>= f) w := by
  intro l
  have hfirst : (x.exec (w.withLocks l)).1 = .ok v := by rw [hx l, hv]
  rw [exec_bind_of_ok hfirst, exec_bind_of_ok hv, hx l, Locks.requested_append]
  exact hf (l.requested as)

theorem Requests.bind_error {e : Fault} (hx : Requests as x w) (he : (x.exec w).1 = .error e) :
    Requests as (x >>= f) w := by
  intro l
  have hfirst : (x.exec (w.withLocks l)).1 = .error e := by rw [hx l, he]
  rw [exec_bind_of_error hfirst, exec_bind_of_error he, hx l]

/-- The action requests no lock. -/
def Unlocked (x : Action (World σ) α) : Prop := ∀ w, Requests [] x w

/-- The action requests the lock of the address and no other, unless it fails before that. -/
def Locked (a : Address) (x : Action (World σ) α) : Prop :=
  ∀ w, Requests [a] x w ∨ Requests [] x w ∧ ∃ e, (x.exec w).1 = .error e

lemma unlocked_pure (v : α) : Unlocked (pure v : Action (World σ) α) := fun _ _ => rfl

lemma unlocked_onBackend (x : Action σ α) : Unlocked (onBackend x) := fun _ _ => rfl

lemma unlocked_onCalls (x : Action Calls α) : Unlocked (onCalls x : Action (World σ) α) :=
  fun _ _ => rfl

lemma locked_lock (a : Address) : Locked a (lock a : Action (World σ) Unit) :=
  fun _ => .inl fun _ => rfl

theorem Unlocked.bind (hx : Unlocked x) (hf : ∀ v, Unlocked (f v)) : Unlocked (x >>= f) := by
  intro w
  cases hv : (x.exec w).1 with
  | error e => exact (hx w).bind_error hv
  | ok v => exact (hx w).bind hv (hf v _)

/-- What is done under a lock. -/
theorem Locked.bind (hx : Locked a x) (hf : ∀ v, Unlocked (f v)) : Locked a (x >>= f) := by
  intro w
  rcases hx w with h | ⟨h, e, he⟩
  · cases hv : (x.exec w).1 with
    | ok v => exact .inl (h.bind hv (hf v _))
    | error e => exact .inl (h.bind_error hv)
  · exact .inr ⟨h.bind_error he, e, by rw [exec_bind_of_error he]⟩

/-- What is done before a lock is requested; if it fails, there is no request. -/
theorem Unlocked.bind_locked (hx : Unlocked x) (hf : ∀ v, Locked a (f v)) : Locked a (x >>= f) := by
  intro w
  cases hv : (x.exec w).1 with
  | error e => exact .inr ⟨(hx w).bind_error hv, e, by rw [exec_bind_of_error hv]⟩
  | ok v =>
    rcases hf v (x.exec w).2 with h | ⟨h, e, he⟩
    · exact .inl ((hx w).bind hv h)
    · exact .inr ⟨(hx w).bind hv h, e, by rw [exec_bind_of_ok hv, he]⟩

end World

namespace Store

open World (Requests Unlocked Locked)

variable {σ : Type} [Backend σ] {a : Address}

/-! ### Requests to stores -/

/-- The name of the collection that a request works on under its lock; none if it takes no lock. -/
def Request.locked? : Request → Option String
  | create name _ _ => some name
  | describe name => some name
  | drop name => some name
  | names => none
  | hasCollection _ => none
  | insert name _ _ => some name
  | update name _ => some name
  | delete name _ => some name
  | select name _ => some name
  | count name => some name
  | retrieve name _ _ _ => some name
  | search name _ => some name

/-- Under its lock, a collection is looked up and worked on. -/
theorem locked_find {α : Type} (store : Store) (name : String) (x : Collection → Action σ α) :
    Locked (store.address name) (do
      World.lock (store.address name)
      let c ← World.onBackend (store.find name)
      World.onBackend (x c)) := by
  refine (World.locked_lock _).bind fun _ => ?_
  exact (World.unlocked_onBackend _).bind fun _ => World.unlocked_onBackend _

theorem onHoldings_locked {α : Type} (store : Store) (name : String) (x : Address → Action σ α) :
    Locked (store.address name) (store.onHoldings name x) :=
  locked_find store name fun _ => x (store.address name)

/-- Embedders are called before the lock is requested. -/
theorem index_locked (store : Store) (name : String) (documents : List Document)
    (write : Address → Collection → List Document → Action σ Unit) :
    Locked (store.address name) (store.index name documents write) := by
  unfold Store.index
  refine (World.unlocked_onBackend _).bind_locked fun _ => ?_
  refine (World.unlocked_onCalls _).bind_locked fun prepared => ?_
  exact locked_find store name fun c => write (store.address name) c prepared

theorem retrieve_locked (store : Store) (name : String) (queries : List String) (limit : Option ℕ)
    (threshold : Option Scalar) :
    Locked (store.address name) (store.retrieve (σ := σ) name queries limit threshold) := by
  unfold Store.retrieve
  refine (World.unlocked_onBackend _).bind_locked fun _ => ?_
  refine (World.unlocked_onCalls _).bind_locked fun embeddings => ?_
  exact locked_find store name fun c =>
    Holdings.retrieve (store.address name) c embeddings (limit.getD store.limit) threshold

/-- **A request that works on a collection takes the lock of its address**, or fails before that;
any other request takes no lock. -/
theorem Request.locking (store : Store) (now : Timestamp) (r : Request) :
    match r.locked? with
    | some name => Locked (store.address name) (r.perform (σ := σ) store now)
    | none => Unlocked (r.perform (σ := σ) store now) := by
  -- an operation and the reply made of its result
  have hreply {α : Type} {a : Address} {x : Action (World σ) α} (hx : Locked a x) (F : α → Reply) :
      Locked a (do return F (← x)) := hx.bind fun _ => World.unlocked_pure _
  cases r with
  | create name overwrite reuse =>
    exact hreply ((World.locked_lock _).bind fun _ => World.unlocked_onBackend _) _
  | describe name =>
    exact hreply ((World.locked_lock _).bind fun _ => World.unlocked_onBackend _) _
  | drop name =>
    have hdrop : Locked (store.address name) (store.drop (σ := σ) name) :=
      (World.locked_lock _).bind fun _ =>
        (World.unlocked_onBackend _).bind fun _ => World.unlocked_pure _
    exact hreply hdrop fun _ => .done
  | names =>
    have hnames : Unlocked (store.names (σ := σ)) :=
      (World.unlocked_onBackend _).bind fun _ => World.unlocked_pure _
    exact hnames.bind fun _ => World.unlocked_pure _
  | hasCollection name => exact (World.unlocked_onBackend _).bind fun _ => World.unlocked_pure _
  | insert name replacing documents =>
    exact hreply (index_locked store name documents _) fun _ => .done
  | update name documents => exact hreply (index_locked store name documents _) fun _ => .done
  | delete name ids =>
    have hdelete : Locked (store.address name) (store.delete (σ := σ) name ids) :=
      (onHoldings_locked store name _).bind fun _ => World.unlocked_pure _
    exact hreply hdelete fun _ => .done
  | select name ids => exact hreply (onHoldings_locked store name _) _
  | count name => exact hreply (onHoldings_locked store name _) _
  | retrieve name queries limit threshold =>
    exact hreply (retrieve_locked store name queries limit threshold) _
  | search name query =>
    have hsearch : Locked (store.address name) (store.search (σ := σ) name query) :=
      (retrieve_locked store name [query] none none).bind fun _ => World.unlocked_pure _
    exact hreply hsearch _

/-! ### Calls -/

/-- The address under whose lock a call works; none if it takes no lock. -/
def Call.locked? (c : Call) : Option Address := c.request.locked?.map c.store.address

/-- In this world the call takes this lock, as that of the address. -/
def Call.Takes (c : Call) (w : World σ) (a : Address) (i : ℕ) : Prop :=
  Requests [a] c.perform w ∧ (w.locks.handle a).1 = i

theorem Call.requests (c : Call) (w : World σ) :
    (∃ a, c.locked? = some a ∧ Requests [a] c.perform w) ∨
      Requests [] c.perform w ∧ (c.locked? = none ∨ ∃ e, (c.perform.exec w).1 = .error e) := by
  have hlocking := c.request.locking (σ := σ) c.store c.now
  cases hname : c.request.locked? with
  | none =>
    rw [hname] at hlocking
    exact .inr ⟨hlocking w, .inl (Option.map_eq_none_iff.mpr hname)⟩
  | some name =>
    rw [hname] at hlocking
    rcases hlocking w with h | ⟨h, he⟩
    · exact .inl ⟨_, Option.map_eq_some_iff.mpr ⟨name, hname, rfl⟩, h⟩
    · exact .inr ⟨h, .inr he⟩

/-- A call that has a reply has taken the lock of the address it works on. -/
theorem Call.takes_of_ok {c : Call} {w : World σ} {r : Reply} (ha : c.locked? = some a)
    (hr : (c.perform.exec w).1 = .ok r) : ∃ i, c.Takes w a i := by
  rcases c.requests w with ⟨b, hb, h⟩ | ⟨-, hnone | ⟨e, he⟩⟩
  · cases hb.symm.trans ha
    exact ⟨_, h, rfl⟩
  · cases hnone.symm.trans ha
  · cases he.symm.trans hr

/-- The lock that a call takes is that of the address from then on. -/
lemma Call.Takes.lock?_eq {c : Call} {w : World σ} {i : ℕ} (h : c.Takes w a i) :
    (c.after w).locks.lock? a = some i := by
  have hlocks : (c.after w).locks = (w.locks.handle a).2 := h.1.locks_eq
  rw [hlocks, Locks.lock?_handle, h.2]

/-! ### Runs of calls -/

/-- **To the registry a run of calls is a run of requests**, for locks of addresses that the calls
work on. -/
theorem requested_afterAll (calls : List Call) : ∀ w : World σ,
    ∃ as : List Address, as.Sublist (calls.filterMap Call.locked?) ∧
      (afterAll calls w).locks = w.locks.requested as := by
  induction calls with
  | nil => exact fun w => ⟨[], .refl _, rfl⟩
  | cons c rest ih =>
    intro w
    obtain ⟨as, hsub, has⟩ := ih (c.after w)
    rw [afterAll_cons, has]
    -- the call's own request, if it makes one, comes before those of the rest
    rcases c.requests w with ⟨a, ha, h⟩ | ⟨h, -⟩
    · have hlocks : (c.after w).locks = w.locks.requested [a] := h.locks_eq
      refine ⟨a :: as, ?_, ?_⟩
      · rw [List.filterMap_cons_some ha]
        exact hsub.cons_cons a
      · rw [hlocks, ← Locks.requested_append, List.singleton_append]
    · have hlocks : (c.after w).locks = w.locks := h.locks_eq
      exact ⟨as, hsub.trans ((List.sublist_cons_self c rest).filterMap _), by rw [hlocks]⟩

lemma extends_afterAll (calls : List Call) (w : World σ) :
    w.locks.Extends (afterAll calls w).locks := by
  obtain ⟨as, -, has⟩ := requested_afterAll calls w
  exact has ▸ Locks.extends_requested as w.locks

lemma extends_take {calls : List Call} {m n : ℕ} (hmn : m ≤ n) (w : World σ) :
    (afterAll (calls.take m) w).locks.Extends (afterAll (calls.take n) w).locks := by
  obtain ⟨more, hmore⟩ := List.take_prefix_take_left (l := calls) hmn
  rw [← hmore, afterAll_append]
  exact extends_afterAll more _

/-- The lock that a call of a run takes is that of the address when the run is over. -/
lemma lock?_of_takes {calls : List Call} {w : World σ} {k : Fin calls.length} {i : ℕ}
    (h : (calls.get k).Takes (afterAll (calls.take k) w) a i) :
    (afterAll calls w).locks.lock? a = some i := by
  have hsplit : calls = calls.take k ++ calls.get k :: calls.drop (k + 1) := by simp
  have hafter : afterAll calls w =
      afterAll (calls.drop (k + 1)) ((calls.get k).after (afterAll (calls.take k) w)) := by
    conv_lhs => rw [hsplit, afterAll_append, afterAll_cons]
  rw [hafter]
  exact (extends_afterAll ..).lock?_eq h.lock?_eq

/-- **Locks and addresses belong to each other one to one.** In a run of requests, two requests are
given the same lock just if partition and name are the same, and after each request there are as
many locks as addresses have been asked for. Along a run of calls to stores on one backend, two
calls take the same lock just if they take it as that of the same address, a call that works on a
collection and has a reply has taken the lock of the collection's address, and an address that has a
lock keeps it, whatever becomes of its collection. -/
theorem registry_faithful (as : List Address) (calls : List Call) (w : World σ) :
    (∀ i j : Fin as.length, Locks.empty.granted as i = Locks.empty.granted as j ↔
      (as.get i).partition = (as.get j).partition ∧ (as.get i).name = (as.get j).name) ∧
    (∀ n, (Locks.empty.requested (as.take n)).size = (as.take n).toFinset.card) ∧
    (∀ (i j : Fin calls.length) (a b : Address) (x y : ℕ),
      (calls.get i).Takes (afterAll (calls.take i) w) a x →
      (calls.get j).Takes (afterAll (calls.take j) w) b y → (x = y ↔ a = b)) ∧
    (∀ (i : Fin calls.length) (a : Address) (r : Reply), (calls.get i).locked? = some a →
      ((calls.get i).perform.exec (afterAll (calls.take i) w)).1 = .ok r →
      ∃ x, (calls.get i).Takes (afterAll (calls.take i) w) a x) ∧
    ∀ (m n : ℕ) (a : Address), m ≤ n → a ∈ (afterAll (calls.take m) w).locks.addresses →
      ((afterAll (calls.take n) w).locks.handle a).1 =
        ((afterAll (calls.take m) w).locks.handle a).1 := by
  refine ⟨fun i j => ?_, fun n => Locks.size_requested _, ?_, ?_, ?_⟩
  · rw [Locks.granted_eq_iff, Address.mk.injEq]
  · intro i j a b x y hx hy
    exact Locks.lock_eq_iff (lock?_of_takes hx) (lock?_of_takes hy)
  · intro i a r ha hr
    exact Call.takes_of_ok ha hr
  · intro m n a hmn ha
    exact (extends_take hmn w).handle_eq ha

/-- A collection is created, replaced, dropped and created again, by two stores of one partition. -/
def reborn : List Call :=
  [⟨offline .default, instant 0, .create "animals" false false⟩,
    ⟨{ offline .default with metric := .euclidean }, instant 1, .create "animals" true false⟩,
    ⟨offline .default, instant 2, .drop "animals"⟩,
    ⟨{ offline .default with metric := .euclidean }, instant 3, .create "animals" false false⟩]

/-- Addresses with one text have two locks, and the collection has one lock all the time. -/
theorem registry_faithful_reborn :
    let as : List Address := [⟨"a/b", "c"⟩, ⟨"a", "b/c"⟩, ⟨"a/b", "c"⟩]
    let a : Address := ⟨"default", "animals"⟩
    let world (n : ℕ) : World Memory := afterAll (reborn.take n) (.opened Memory.empty)
    (as[0].display = as[1].display ∧ Locks.empty.granted as 0 ≠ Locks.empty.granted as 1 ∧
      Locks.empty.granted as 0 = Locks.empty.granted as 2 ∧
      (Locks.empty.requested (as.take 2)).size = 2 ∧ (Locks.empty.requested as).size = 2) ∧
    Backend.hasCollection a (world 3).backend = .ok false ∧
    (∃ x, reborn[0].Takes (world 0) a x ∧ reborn[3].Takes (world 3) a x) ∧
    a ∈ (world 1).locks.addresses ∧
      ((world 4).locks.handle a).1 = ((world 1).locks.handle a).1 := by
  intro as a world
  obtain ⟨hsame, hsize, htakes, hok, hkept⟩ :=
    registry_faithful as reborn (World.opened Memory.empty)
  obtain ⟨x, hx⟩ := hok ⟨0, by decide⟩ a _ rfl rfl
  obtain ⟨y, hy⟩ := hok ⟨3, by decide⟩ a _ rfl rfl
  have hmem : a ∈ (world 1).locks.addresses := by decide +kernel
  have hxy : x = y := (htakes _ _ a a x y hx hy).mpr rfl
  refine ⟨⟨by decide, ?_, ?_, ?_, ?_⟩, rfl, ⟨x, hx, hxy ▸ hy⟩, hmem, hkept 1 4 a (by decide) hmem⟩
  · rw [Ne, hsame 0 1]
    decide
  · exact (hsame 0 2).mpr (by decide)
  · exact (hsize 2).trans (by decide)
  · exact (hsize 3).trans (by decide)

end Store

end SemanticStore
