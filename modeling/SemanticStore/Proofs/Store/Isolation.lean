import SemanticStore.Proofs.Backend.Memory
import SemanticStore.Proofs.Backend.Partitions
import SemanticStore.Proofs.Backend.Retimed
import SemanticStore.Proofs.Backend.Tables
import SemanticStore.Proofs.Store.Ensures
import SemanticStore.Proofs.Store.Simulation

/-!
# Partitions do not see each other

Stores in several partitions share a backend. What the stores of one partition are answered is what
they are answered when their calls alone are made on a fresh backend, at other times perhaps
(`Store.partition_isolated`).

Both backends are catalogs, so the proof is about catalogs. Seen from its partition, a shared catalog
is the part of it in the partition: a call in the partition acts on the part as on the whole, any
other call leaves the part as it is (`Store.Shared.repliesIn_eq_replies`). Sequence numbers, which
the partitions do share, are no longer there to be renumbered.
-/

namespace SemanticStore.Store

/-- A backend that stores in several partitions share. Embedders may remember what they were called
with, so each partition has a record of calls to itself. -/
structure Shared (σ : Type) where
  backend : σ
  locks : Locks
  calls : String → Calls

namespace Shared

variable {σ τ : Type}

/-- A backend that has just been opened. -/
def opened (backend : σ) : Shared σ := ⟨backend, .empty, fun _ => []⟩

/-- What the stores of a partition work on. -/
def world (p : String) (s : Shared σ) : World σ := ⟨s.backend, s.locks, s.calls p⟩

variable [Backend σ] [Backend τ]

/-- The shared backend after a call. -/
def after (c : Call) (s : Shared σ) : Shared σ :=
  let w := c.after (s.world c.partition)
  ⟨w.backend, w.locks, fun p => if p = c.partition then w.calls else s.calls p⟩

/-- What the calls in one partition result in, among the calls in all partitions. -/
def repliesIn (p : String) : List Call → Shared σ → List (Except Fault Reply)
  | [], _ => []
  | c :: rest, s =>
      if c.partition = p then (c.perform.exec (s.world p)).1 :: repliesIn p rest (s.after c)
      else repliesIn p rest (s.after c)

/-! ### From backends to catalogs -/

theorem repliesIn_eq {R : σ → τ → Prop} (h : Backend.Refinement R) (p : String)
    (calls : List Call) : ∀ {s : Shared σ} {t : Shared τ}, R s.backend t.backend →
      s.calls = t.calls → repliesIn p calls s = repliesIn p calls t := by
  induction calls with
  | nil =>
    intros
    rfl
  | cons c rest ih =>
    intro s t hst hcalls
    have hworld : World.Related R (s.world c.partition) (t.world c.partition) :=
      ⟨hst, congrFun hcalls c.partition⟩
    obtain ⟨hreply, hafter⟩ := perform_sim h trivial rfl c.request hworld
    have hrest : repliesIn p rest (s.after c) = repliesIn p rest (t.after c) := by
      refine ih hafter.1 (funext fun q => ?_)
      have hc : (c.after (s.world c.partition)).calls = (c.after (t.world c.partition)).calls :=
        hafter.2
      simp only [after, hc, hcalls]
    rw [repliesIn, repliesIn, hrest]
    by_cases hp : c.partition = p
    · subst hp
      have heq : (c.perform.exec (s.world c.partition)).1 =
          (c.perform.exec (t.world c.partition)).1 :=
        Agree.eq_iff.mp (hreply.mono fun _ _ => Reply.Alike.eq)
      rw [if_pos rfl, if_pos rfl, heq]
    · rw [if_neg hp, if_neg hp]

/-! ### From a shared catalog to its parts -/

variable {f : Fidelity} {p : String}

/-- Writes in another partition leave the part as it is. -/
theorem preserves_part {a : Address} (ha : a.partition ≠ p) (k₀ : Catalog f) :
    Preserves a fun k : Catalog f => Catalog.part p k = k₀ where
  create {c k k'} hk h := by
    have h : Catalog.create a c k = .ok k' := h
    unfold Catalog.create at h
    split at h
    · cases h
    · cases h
      rw [Catalog.part_append_of_ne ha]
      exact hk
  redescribe {c k k'} hk h := by
    obtain ⟨h₀, -, rfl⟩ := Catalog.holding_map_eq_ok.mp h
    rw [Catalog.part_store_of_ne ha]
    exact hk
  drop {b k k'} hk h := by
    cases h
    rw [Catalog.part_erase_of_ne ha]
    exact hk
  put {d k k'} hk h := by
    obtain ⟨h₀, -, rfl⟩ := Catalog.holding_map_eq_ok.mp h
    rw [Catalog.part_store_of_ne ha]
    exact hk
  remove {id b k k'} hk h := by
    obtain ⟨h₀, -, heq⟩ := Catalog.holding_map_eq_ok.mp h
    cases heq
    rw [Catalog.part_store_of_ne ha]
    exact hk

/-- A call in another partition leaves the part as it is. -/
theorem part_after_of_ne {c : Call} (hc : c.partition ≠ p) (w : World (Catalog f)) :
    Catalog.part p (c.after w).backend = Catalog.part p w.backend :=
  Ensures.after (Preserves.ensures fun _ => preserves_part hc _) rfl

/-- **A partition of a shared catalog is answered as if its part were the whole.** -/
theorem repliesIn_eq_replies (calls : List Call) :
    ∀ {s : Shared (Catalog f)} {w : World (Catalog f)}, Catalog.part p s.backend = w.backend →
      s.calls p = w.calls →
      repliesIn p calls s = replies (calls.filter fun c => c.partition = p) w := by
  -- every call keeps this: the part of the shared catalog is the other catalog
  induction calls with
  | nil =>
    intros
    rfl
  | cons c rest ih =>
    intro s w hpart hcalls
    rw [repliesIn, List.filter_cons]
    by_cases hp : c.partition = p
    · obtain ⟨hreply, hafter⟩ := perform_sim (Catalog.part_simulation p) hp rfl c.request
        (show World.Related _ (s.world p) w from ⟨hpart, hcalls⟩)
      have heq : (c.perform.exec (s.world p)).1 = (c.perform.exec w).1 :=
        Agree.eq_iff.mp (hreply.mono fun _ _ => Reply.Alike.eq)
      have hafter : Catalog.part p (s.after c).backend = (c.after w).backend ∧
          (s.after c).calls p = (c.after w).calls := by
        subst hp
        exact ⟨hafter.1, (if_pos rfl).trans hafter.2⟩
      rw [if_pos hp, if_pos (decide_eq_true hp), replies, heq, ih hafter.1 hafter.2]
    · -- a call of another partition is not among those of the fresh backend
      have hafter : Catalog.part p (s.after c).backend = w.backend :=
        (part_after_of_ne hp (s.world c.partition)).trans hpart
      have hsame : (s.after c).calls p = w.calls := (if_neg fun h => hp h.symm).trans hcalls
      rw [if_neg hp, if_neg (by simpa using hp), ih hafter hsame]

end Shared

/-! ### Isolation -/

open Shared

/-- Replies from a shared backend that refines a catalog are those from a fresh one, but for times. -/
theorem repliesIn_alike {σ : Type} [Backend σ] {f : Fidelity} {T : Timestamp → Timestamp → Prop}
    {R : σ → Catalog f → Prop} (hR : Backend.Refinement R) (hT : f.Respects T) {s : σ}
    (hs : R s (.empty f)) {p : String} {calls solo : List Call}
    (h : List.Forall₂ (Call.Alike T) (calls.filter fun c => c.partition = p) solo) :
    List.Forall₂ (Agree (Reply.Alike T)) (repliesIn p calls (.opened s))
      (replies solo (.opened s)) := by
  have hjoint : repliesIn p calls (.opened s) =
      replies (calls.filter fun c => c.partition = p) (.opened (Catalog.empty f)) :=
    (repliesIn_eq hR p calls hs rfl).trans
      (repliesIn_eq_replies (s := .opened (Catalog.empty f)) calls rfl rfl)
  have hsolo : replies solo (.opened s) = replies solo (.opened (Catalog.empty f)) :=
    replies_eq hR solo ⟨hs, rfl⟩
  rw [hjoint, hsolo]
  exact replies_alike (Catalog.retimed_simulation hT) h ⟨.empty, rfl⟩

/-- **What the stores of a partition are answered does not depend on the other partitions**: on
memory and on tables it is what they are answered when their calls alone are made on a fresh backend,
but for the times at which the calls are made. -/
theorem partition_isolated (p : String) (calls solo : List Call) :
    (List.Forall₂ (Call.Alike fun _ _ => True) (calls.filter fun c => c.partition = p) solo →
      List.Forall₂ (Agree (Reply.Alike fun _ _ => True)) (repliesIn p calls (.opened Memory.empty))
        (replies solo (.opened Memory.empty))) ∧
    (List.Forall₂ (Call.Alike Timestamp.Interchangeable)
        (calls.filter fun c => c.partition = p) solo →
      List.Forall₂ (Agree (Reply.Alike Timestamp.Interchangeable))
        (repliesIn p calls (.opened Tables.empty)) (replies solo (.opened Tables.empty))) :=
  ⟨repliesIn_alike Memory.refinement (Fidelity.exact_respects _) Memory.shows_empty,
    repliesIn_alike Tables.refinement Fidelity.textual_respects Tables.shows_empty⟩

/-- A call in the partition of this name, at some second. -/
def callIn (partition : String) (second : ℕ) (request : Request) : Call :=
  ⟨offline (.text partition), instant second, request⟩

/-- Two partitions use one name and one id, and the second drops its collection. -/
def entangled : List Call :=
  [callIn "red" 0 (.create "animals" false false), callIn "blue" 1 (.create "animals" false false),
    callIn "blue" 2 (.insert "animals" false [⟨"1", "a wolf", none, some [.one, .one]⟩]),
    callIn "red" 3 (.insert "animals" false [⟨"1", "a fox", none, some [.one]⟩]),
    callIn "blue" 4 (.drop "animals"), callIn "red" 5 (.describe "animals")]

/-- The calls of the first partition among `entangled`, made later. -/
def untangled : List Call :=
  [callIn "red" 10 (.create "animals" false false),
    callIn "red" 11 (.insert "animals" false [⟨"1", "a fox", none, some [.one]⟩]),
    callIn "red" 12 (.describe "animals")]

theorem partition_isolated_entangled :
    List.Forall₂ (Agree (Reply.Alike fun _ _ => True))
      (repliesIn "red" entangled (.opened Memory.empty)) (replies untangled (.opened Memory.empty)) ∧
    List.Forall₂ (Agree (Reply.Alike Timestamp.Interchangeable))
      (repliesIn "red" entangled (.opened Tables.empty)) (replies untangled (.opened Tables.empty)) := by
  have hsame (T : Timestamp → Timestamp → Prop) (hT : ∀ i j, T (instant i) (instant j)) :
      List.Forall₂ (Call.Alike T) (entangled.filter fun c => c.partition = "red") untangled := by
    have hred : (entangled.filter fun c => c.partition = "red") =
        [callIn "red" 0 (.create "animals" false false),
          callIn "red" 3 (.insert "animals" false [⟨"1", "a fox", none, some [.one]⟩]),
          callIn "red" 5 (.describe "animals")] := rfl
    rw [hred]
    exact .cons ⟨rfl, hT _ _, rfl⟩ (.cons ⟨rfl, hT _ _, rfl⟩ (.cons ⟨rfl, hT _ _, rfl⟩ .nil))
  have hera (i : ℕ) : (instant i).InEra := by simp [Timestamp.InEra, instant]
  obtain ⟨memory, tables⟩ := partition_isolated "red" entangled untangled
  exact ⟨memory (hsame _ fun _ _ => trivial), tables (hsame _ fun i j => .inr ⟨hera i, hera j⟩)⟩

end SemanticStore.Store
