import Mathlib.Data.Finset.Card
import Mathlib.Tactic.Common
import SemanticStore.Locks

/-!
# The registry of locks

A request either finds the lock of its address or adds one at the end, so registries only grow
(`Locks.Extends`): an address that has a lock keeps it (`Extends.lock?_eq`), and no lock is that of
two addresses (`eq_of_lock?`).

* `Locks.granted_eq_iff`: of a run of requests, two are given the same lock just if they ask for the
  same address.
* `Locks.size_requested`: a registry has as many locks as addresses have been asked for.
-/

namespace SemanticStore.Locks

variable {a b : Address} {i j : ℕ} {l l' : Locks}

/-! ### One request -/

/-- The lock that an address has, if it has one. -/
def lock? (a : Address) (l : Locks) : Option ℕ := l.addresses.idxOf? a

/-- The second registry has the entries of the first, at their places. -/
def Extends (l l' : Locks) : Prop := l.addresses <+: l'.addresses

theorem Extends.refl (l : Locks) : l.Extends l := List.prefix_refl _

theorem Extends.trans {l'' : Locks} (h : l.Extends l') (h' : l'.Extends l'') : l.Extends l'' :=
  List.IsPrefix.trans h h'

lemma lock?_eq_none_iff : l.lock? a = none ↔ a ∉ l.addresses := List.idxOf?_eq_none_iff

lemma handle_of_lock? (h : l.lock? a = some i) : l.handle a = (i, l) := by
  unfold lock? at h
  unfold handle
  rw [h]

lemma handle_of_lock?_eq_none (h : l.lock? a = none) :
    l.handle a = (l.size, ⟨l.addresses ++ [a]⟩) := by
  unfold lock? at h
  unfold handle
  rw [h]
  rfl

theorem Extends.lock?_eq (h : l.Extends l') (ha : l.lock? a = some i) : l'.lock? a = some i := by
  obtain ⟨more, hmore⟩ := h
  unfold lock? List.idxOf? at ha ⊢
  rw [← hmore, List.findIdx?_append, ha, Option.some_or]

/-- An address that has been asked for is given one lock at all times. -/
theorem Extends.handle_eq (h : l.Extends l') (ha : a ∈ l.addresses) :
    (l'.handle a).1 = (l.handle a).1 := by
  obtain ⟨i, hi⟩ := Option.isSome_iff_exists.mp (List.isSome_idxOf?.mpr ha)
  rw [handle_of_lock? hi, handle_of_lock? (h.lock?_eq hi)]

/-- A lock is that of one address. -/
theorem eq_of_lock? (ha : l.lock? a = some i) (hb : l.lock? b = some i) : a = b := by
  obtain ⟨_, hia, -⟩ := List.idxOf?_eq_some_iff.mp ha
  obtain ⟨_, hib, -⟩ := List.idxOf?_eq_some_iff.mp hb
  exact hia.symm.trans hib

lemma lock_eq_iff (ha : l.lock? a = some i) (hb : l.lock? b = some j) : i = j ↔ a = b := by
  constructor
  · rintro rfl
    exact eq_of_lock? ha hb
  · rintro rfl
    exact Option.some.inj (ha.symm.trans hb)

lemma extends_handle (a : Address) (l : Locks) : l.Extends (l.handle a).2 := by
  cases h : l.lock? a with
  | some i => exact handle_of_lock? h ▸ .refl l
  | none => exact handle_of_lock?_eq_none h ▸ List.prefix_append ..

/-- The lock that a request is given is that of its address from then on. -/
theorem lock?_handle (a : Address) (l : Locks) : (l.handle a).2.lock? a = some (l.handle a).1 := by
  cases h : l.lock? a with
  | some i => rw [handle_of_lock? h, h]
  | none =>
    -- a new lock has the place behind all others
    have hnew : l.addresses.findIdx? (· == a) = none := h
    rw [handle_of_lock?_eq_none h]
    simp [lock?, size, List.idxOf?, List.findIdx?_append, hnew]

lemma mem_handle : b ∈ (l.handle a).2.addresses ↔ b ∈ l.addresses ∨ b = a := by
  cases h : l.lock? a with
  | some i =>
    have ha : a ∈ l.addresses := by
      rw [← List.isSome_idxOf?]
      exact Option.isSome_of_eq_some h
    rw [handle_of_lock? h]
    constructor
    · exact .inl
    · rintro (hb | rfl)
      · exact hb
      · exact ha
  | none => simp [handle_of_lock?_eq_none h]

lemma nodup_handle (h : l.addresses.Nodup) : (l.handle a).2.addresses.Nodup := by
  cases ha : l.lock? a with
  | some i => exact handle_of_lock? ha ▸ h
  | none =>
    rw [handle_of_lock?_eq_none ha]
    show (l.addresses ++ [a]).Nodup
    rw [← List.concat_eq_append]
    exact h.concat (lock?_eq_none_iff.mp ha)

/-! ### Runs of requests -/

variable {as : List Address}

/-- The registry after requests for the locks of these addresses, one after the other. -/
def requested (as : List Address) (l : Locks) : Locks := as.foldl (fun l a => (l.handle a).2) l

/-- The lock that one of these requests is given. -/
def granted (as : List Address) (l : Locks) (i : Fin as.length) : ℕ :=
  ((l.requested (as.take i)).handle (as.get i)).1

lemma requested_append (as bs : List Address) (l : Locks) :
    l.requested (as ++ bs) = (l.requested as).requested bs := List.foldl_append

lemma extends_requested (as : List Address) : ∀ l : Locks, l.Extends (l.requested as) := by
  induction as with
  | nil => exact .refl
  | cons a rest ih => exact fun l => (extends_handle a l).trans (ih _)

/-- After the last request, every address that was asked for has the lock its request was given. -/
theorem lock?_granted (as : List Address) (l : Locks) (i : Fin as.length) :
    (l.requested as).lock? (as.get i) = some (l.granted as i) := by
  have hsplit : as.take i ++ ([as.get i] ++ as.drop (i + 1)) = as := by simp
  have hafter : l.requested as =
      ((l.requested (as.take i)).handle (as.get i)).2.requested (as.drop (i + 1)) := by
    conv_lhs => rw [← hsplit, requested_append, requested_append]
    rfl
  rw [hafter]
  exact (extends_requested _ _).lock?_eq (lock?_handle ..)

/-- **Two requests are given the same lock just if they ask for the same address.** -/
theorem granted_eq_iff (as : List Address) (l : Locks) (i j : Fin as.length) :
    l.granted as i = l.granted as j ↔ as.get i = as.get j :=
  lock_eq_iff (lock?_granted as l i) (lock?_granted as l j)

lemma mem_requested : ∀ {l : Locks}, b ∈ (l.requested as).addresses ↔ b ∈ l.addresses ∨ b ∈ as := by
  induction as with
  | nil => simp [requested]
  | cons a rest ih =>
    intro l
    show b ∈ ((l.handle a).2.requested rest).addresses ↔ _
    rw [ih, mem_handle, List.mem_cons, or_assoc]

lemma nodup_requested (as : List Address) : ∀ {l : Locks}, l.addresses.Nodup →
    (l.requested as).addresses.Nodup := by
  induction as with
  | nil => exact id
  | cons a rest ih => exact fun h => ih (nodup_handle h)

/-- **There are as many locks as addresses that have been asked for.** -/
theorem size_requested (as : List Address) : (empty.requested as).size = as.toFinset.card := by
  have hnodup : (empty.requested as).addresses.Nodup := nodup_requested as List.nodup_nil
  have hmem : (empty.requested as).addresses.toFinset = as.toFinset := by
    ext b
    simp [mem_requested, empty]
  rw [← hmem, List.toFinset_card_of_nodup hnodup]
  rfl

end SemanticStore.Locks
