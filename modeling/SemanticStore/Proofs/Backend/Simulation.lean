import Mathlib.Data.List.Forall2
import SemanticStore.Backend.Basic
import SemanticStore.Proofs.Action

/-!
# Backends that answer alike

`Backend.Simulation` relates the states of two backends: operations at the addresses of some
partitions answer alike from related states and lead to related states. Descriptors may differ in
their times, as far as a relation on times allows it.

A run of a backend is a list of `Backend.Request`s, one for each operation; `Backend.answers` are the
answers to it. Under a simulation that covers all partitions and compares times for equality, related
states answer every run alike (`Backend.Simulation.answers_eq`).
-/

namespace SemanticStore

/-- Descriptors that are equal but for their times, which are related by `T`. -/
structure Collection.Alike (T : Timestamp → Timestamp → Prop) (c d : Collection) : Prop where
  name : c.name = d.name
  dimension : c.dimension = d.dimension
  metric : c.metric = d.metric
  createdAt : T c.createdAt d.createdAt
  count : c.count = d.count

namespace Collection.Alike

variable {T : Timestamp → Timestamp → Prop} {c d : Collection}

theorem refl (hT : ∀ t, T t t) (c : Collection) : Alike T c c := ⟨rfl, rfl, rfl, hT _, rfl⟩

theorem eq (h : Alike Eq c d) : c = d := by
  obtain ⟨h₁, h₂, h₃, h₄, h₅⟩ := h
  cases c
  cases d
  simp_all

end Collection.Alike

namespace Agree

variable {α : Type}

theorem option_rel_of_eq {Q : α → α → Prop} (hQ : ∀ a, Q a a) {x y : Except Fault (Option α)}
    (h : x = y) : Agree (Option.Rel Q) x y := by
  subst h
  refine refl (fun o => ?_) x
  cases o with
  | none => exact .none
  | some a => exact .some (hQ a)

theorem forall₂_of_eq {Q : α → α → Prop} (hQ : ∀ a, Q a a) {x y : Except Fault (List α)}
    (h : x = y) : Agree (List.Forall₂ Q) x y := by
  subst h
  exact refl (fun l => List.forall₂_same.mpr fun a _ => hQ a) x

end Agree

namespace Backend

/-! ### Simulations -/

/-- From states related by `R`, operations in partitions within `scope` answer alike and lead to
related states. -/
structure Simulation {σ τ : Type} [Backend σ] [Backend τ] (scope : String → Prop)
    (T : Timestamp → Timestamp → Prop) (R : σ → τ → Prop) : Prop where
  hasCollection {s t} {a : Address} (h : R s t) (ha : scope a.partition) :
    Backend.hasCollection a s = Backend.hasCollection a t
  collection? {s t} {a : Address} (h : R s t) (ha : scope a.partition) :
    Agree (Option.Rel (Collection.Alike T)) (Backend.collection? a s) (Backend.collection? a t)
  create {s t} {a : Address} {c d : Collection} (h : R s t) (ha : scope a.partition)
    (hcd : c.Alike T d) : Agree R (Backend.create a c s) (Backend.create a d t)
  redescribe {s t} {a : Address} {c d : Collection} (h : R s t) (ha : scope a.partition)
    (hcd : c.Alike T d) : Agree R (Backend.redescribe a c s) (Backend.redescribe a d t)
  drop {s t} {a : Address} (h : R s t) (ha : scope a.partition) :
    Agree (fun x y => x.1 = y.1 ∧ R x.2 y.2) (Backend.drop a s) (Backend.drop a t)
  collections {s t} {p : String} (h : R s t) (hp : scope p) :
    Agree (List.Forall₂ (Collection.Alike T)) (Backend.collections p s) (Backend.collections p t)
  hasDocument {s t} {a : Address} (id : String) (h : R s t) (ha : scope a.partition) :
    Backend.hasDocument a id s = Backend.hasDocument a id t
  document? {s t} {a : Address} (id : String) (h : R s t) (ha : scope a.partition) :
    Backend.document? a id s = Backend.document? a id t
  put {s t} {a : Address} (d : Document) (h : R s t) (ha : scope a.partition) :
    Agree R (Backend.put a d s) (Backend.put a d t)
  remove {s t} {a : Address} (id : String) (h : R s t) (ha : scope a.partition) :
    Agree (fun x y => x.1 = y.1 ∧ R x.2 y.2) (Backend.remove a id s) (Backend.remove a id t)
  documents {s t} {a : Address} (h : R s t) (ha : scope a.partition) :
    Backend.documents a s = Backend.documents a t
  count {s t} {a : Address} (h : R s t) (ha : scope a.partition) :
    Backend.count a s = Backend.count a t

/-- A simulation that covers all partitions and compares times for equality. -/
abbrev Refinement {σ τ : Type} [Backend σ] [Backend τ] (R : σ → τ → Prop) : Prop :=
  Simulation (fun _ => True) Eq R

theorem Simulation.refl (σ : Type) [Backend σ] : Refinement (Eq : σ → σ → Prop) where
  hasCollection h _ := h ▸ rfl
  collection? h _ := Agree.option_rel_of_eq (Collection.Alike.refl fun _ => rfl) (h ▸ rfl)
  create h _ hcd := Agree.eq_iff.mpr (h ▸ hcd.eq ▸ rfl)
  redescribe h _ hcd := Agree.eq_iff.mpr (h ▸ hcd.eq ▸ rfl)
  drop h _ := h ▸ Agree.refl (fun _ => ⟨rfl, rfl⟩) _
  collections h _ := Agree.forall₂_of_eq (Collection.Alike.refl fun _ => rfl) (h ▸ rfl)
  hasDocument _ h _ := h ▸ rfl
  document? _ h _ := h ▸ rfl
  put _ h _ := Agree.eq_iff.mpr (h ▸ rfl)
  remove _ h _ := h ▸ Agree.refl (fun _ => ⟨rfl, rfl⟩) _
  documents h _ := h ▸ rfl
  count h _ := h ▸ rfl

theorem Simulation.collection?_eq {σ τ : Type} [Backend σ] [Backend τ] {R : σ → τ → Prop}
    (h : Refinement R) {s : σ} {t : τ} (hst : R s t) (a : Address) :
    Backend.collection? a s = Backend.collection? a t := by
  refine Agree.eq_iff.mp ((h.collection? (a := a) hst trivial).mono fun o o' ho => ?_)
  cases ho with
  | none => rfl
  | some hcd => rw [hcd.eq]

/-- Refinements in a row are a refinement. -/
theorem Simulation.comp {σ τ υ : Type} [Backend σ] [Backend τ] [Backend υ] {R : σ → τ → Prop}
    {S : τ → υ → Prop} (hR : Refinement R) (hS : Refinement S) :
    Refinement fun s u => ∃ t, R s t ∧ S t u where
  hasCollection := by
    rintro s u a ⟨t, hst, htu⟩ -
    exact (hR.hasCollection hst trivial).trans (hS.hasCollection htu trivial)
  collection? := by
    rintro s u a ⟨t, hst, htu⟩ -
    refine ((hR.collection? hst trivial).trans (hS.collection? htu trivial)).mono ?_
    rintro _ _ ⟨_, hxy, hyz⟩
    cases hxy with
    | none => exact hyz
    | some hcd => cases hyz with | some hde => exact .some (hcd.eq ▸ hde)
  create := by
    rintro s u a c d ⟨t, hst, htu⟩ - hcd
    obtain rfl := hcd.eq
    exact (hR.create hst trivial hcd).trans (hS.create htu trivial hcd)
  redescribe := by
    rintro s u a c d ⟨t, hst, htu⟩ - hcd
    obtain rfl := hcd.eq
    exact (hR.redescribe hst trivial hcd).trans (hS.redescribe htu trivial hcd)
  drop := by
    rintro s u a ⟨t, hst, htu⟩ -
    refine ((hR.drop hst trivial).trans (hS.drop htu trivial)).mono ?_
    rintro _ _ ⟨y, ⟨hx, hsy⟩, hz, hyu⟩
    exact ⟨hx.trans hz, y.2, hsy, hyu⟩
  collections := by
    rintro s u p ⟨t, hst, htu⟩ -
    refine ((hR.collections hst trivial).trans (hS.collections htu trivial)).mono ?_
    rintro _ _ ⟨cs, hcs, hds⟩
    have heq : _ = cs := List.forall₂_eq_eq_eq ▸ hcs.imp fun _ _ => Collection.Alike.eq
    exact heq ▸ hds
  hasDocument := by
    rintro s u a id ⟨t, hst, htu⟩ -
    exact (hR.hasDocument id hst trivial).trans (hS.hasDocument id htu trivial)
  document? := by
    rintro s u a id ⟨t, hst, htu⟩ -
    exact (hR.document? id hst trivial).trans (hS.document? id htu trivial)
  put := by
    rintro s u a d ⟨t, hst, htu⟩ -
    exact (hR.put d hst trivial).trans (hS.put d htu trivial)
  remove := by
    rintro s u a id ⟨t, hst, htu⟩ -
    refine ((hR.remove id hst trivial).trans (hS.remove id htu trivial)).mono ?_
    rintro _ _ ⟨y, ⟨hx, hsy⟩, hz, hyu⟩
    exact ⟨hx.trans hz, y.2, hsy, hyu⟩
  documents := by
    rintro s u a ⟨t, hst, htu⟩ -
    exact (hR.documents hst trivial).trans (hS.documents htu trivial)
  count := by
    rintro s u a ⟨t, hst, htu⟩ -
    exact (hR.count hst trivial).trans (hS.count htu trivial)

/-! ### Runs -/

/-- An operation of a backend with its arguments. -/
inductive Request where
  | hasCollection (a : Address)
  | collection? (a : Address)
  | create (a : Address) (c : Collection)
  | redescribe (a : Address) (c : Collection)
  | drop (a : Address)
  | collections (partition : String)
  | hasDocument (a : Address) (id : String)
  | document? (a : Address) (id : String)
  | put (a : Address) (d : Document)
  | remove (a : Address) (id : String)
  | documents (a : Address)
  | count (a : Address)

/-- What an operation of a backend results in. -/
inductive Answer where
  | done
  | flag (b : Bool)
  | collection (c : Option Collection)
  | collections (cs : List Collection)
  | document (d : Option Document)
  | documents (ds : List Document)
  | number (n : Nat)

section Run

variable {σ : Type} [Backend σ]

/-- Carries out a request. -/
def Request.perform : Request → Action σ Answer
  | hasCollection a => do return .flag (← .read (Backend.hasCollection a))
  | collection? a => do return .collection (← .read (Backend.collection? a))
  | create a c => do
      .write (Backend.create a c)
      return .done
  | redescribe a c => do
      .write (Backend.redescribe a c)
      return .done
  | drop a => do return .flag (← .change (Backend.drop a))
  | collections partition => do return .collections (← .read (Backend.collections partition))
  | hasDocument a id => do return .flag (← .read (Backend.hasDocument a id))
  | document? a id => do return .document (← .read (Backend.document? a id))
  | put a d => do
      .write (Backend.put a d)
      return .done
  | remove a id => do return .flag (← .change (Backend.remove a id))
  | documents a => do return .documents (← .read (Backend.documents a))
  | count a => do return .number (← .read (Backend.count a))

/-- The answers to requests made one after the other. -/
def answers : List Request → σ → List (Except Fault Answer)
  | [], _ => []
  | r :: rest, s => (r.perform.exec s).1 :: answers rest (r.perform.exec s).2

end Run

section Sim

variable {σ τ α : Type} {R : σ → τ → Prop}

open SemanticStore.Action

namespace Request

lemma sim_write {f : σ → Except Fault σ} {g : τ → Except Fault τ}
    (hfg : ∀ s t, R s t → Agree R (f s) (g t)) :
    Sim R Eq (do Action.write f; return Answer.done) (do Action.write g; return .done) :=
  (Sim.write (Q := Eq) rfl hfg).bind fun _ _ _ => Sim.pure rfl

lemma sim_read {f : σ → Except Fault α} {g : τ → Except Fault α} (F : α → Answer)
    (hfg : ∀ s t, R s t → f s = g t) :
    Sim R Eq (do return F (← Action.read f)) (do return F (← Action.read g)) :=
  (Sim.read_eq hfg).bind fun _ _ hab => Sim.pure (congrArg F hab)

lemma sim_change {f : σ → Except Fault (Bool × σ)} {g : τ → Except Fault (Bool × τ)}
    (hfg : ∀ s t, R s t → Agree (fun x y => x.1 = y.1 ∧ R x.2 y.2) (f s) (g t)) :
    Sim R Eq (do return Answer.flag (← Action.change f)) (do return .flag (← Action.change g)) :=
  (Sim.change (Q := Eq) hfg).bind fun _ _ hab => Sim.pure (congrArg _ hab)

end Request

variable [Backend σ] [Backend τ]

/-- Where related states answer each request of a run alike, they answer the run alike. -/
theorem answers_eq_of_sim (rs : List Request)
    (h : ∀ r ∈ rs, Sim R Eq (r.perform (σ := σ)) (r.perform (σ := τ))) :
    ∀ {s : σ} {t : τ}, R s t → answers rs s = answers rs t := by
  induction rs with
  | nil => intro s t _; rfl
  | cons r rs ih =>
    intro s t hst
    obtain ⟨hout, hst'⟩ := h r (List.mem_cons_self ..) hst
    have hrest := ih (fun r' hr' => h r' (List.mem_cons_of_mem _ hr')) hst'
    rw [answers, answers, Agree.eq_iff.mp hout, hrest]

namespace Simulation

theorem perform_sim (h : Refinement R) (r : Request) :
    Sim R Eq (r.perform (σ := σ)) (r.perform (σ := τ)) := by
  cases r with
  | hasCollection a => exact Request.sim_read _ fun s t hst => h.hasCollection hst trivial
  | collection? a =>
    refine (Sim.read fun s t hst => h.collection? hst trivial).bind fun x y hxy => Sim.pure ?_
    cases hxy with
    | none => rfl
    | some hcd => rw [hcd.eq]
  | create a c =>
    exact Request.sim_write fun s t hst => h.create hst trivial (.refl (fun _ => rfl) c)
  | redescribe a c =>
    exact Request.sim_write fun s t hst => h.redescribe hst trivial (.refl (fun _ => rfl) c)
  | drop a => exact Request.sim_change fun s t hst => h.drop hst trivial
  | collections p =>
    refine (Sim.read fun s t hst => h.collections hst trivial).bind fun x y hxy => Sim.pure ?_
    have heq : List.Forall₂ Eq x y := hxy.imp fun _ _ => Collection.Alike.eq
    rw [List.forall₂_eq_eq_eq] at heq
    rw [heq]
  | hasDocument a id => exact Request.sim_read _ fun s t hst => h.hasDocument id hst trivial
  | document? a id => exact Request.sim_read _ fun s t hst => h.document? id hst trivial
  | put a d => exact Request.sim_write fun s t hst => h.put d hst trivial
  | remove a id => exact Request.sim_change fun s t hst => h.remove id hst trivial
  | documents a => exact Request.sim_read _ fun s t hst => h.documents hst trivial
  | count a => exact Request.sim_read _ fun s t hst => h.count hst trivial

/-- **Related states answer every run alike.** -/
theorem answers_eq (h : Refinement R) (rs : List Request) {s : σ} {t : τ} (hst : R s t) :
    answers rs s = answers rs t :=
  answers_eq_of_sim rs (fun r _ => perform_sim h r) hst

end Simulation

end Sim

end Backend

end SemanticStore
