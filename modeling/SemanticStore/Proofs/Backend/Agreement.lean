import SemanticStore.Proofs.Backend.Memory
import SemanticStore.Proofs.Backend.Tables
import SemanticStore.Proofs.Timestamp

/-!
# The two backends agree

A backend that keeps texts gives back what was put if its text can be read: a descriptor if it has
the name of its address and a time that is written in full, a document if its body is read as it was
written. `Backend.Request.Plain` says this of a request.

* `Catalog.sim_copies`: a catalog of values and a catalog of texts that hold the same answer every
  plain request alike, and then hold the same again.
* `Backend.memory_agrees_with_tables`: started empty, memory and tables answer every run of plain
  requests alike, with the same results and the same faults.
-/

namespace SemanticStore

/-- What the request puts is read from its texts again. -/
def Backend.Request.Plain : Backend.Request → Prop
  | create a c => c.name = a.name ∧ c.createdAt.InEra
  | redescribe a c => c.name = a.name ∧ c.createdAt.InEra
  | put _ d => Body.decode d.id (Body.encode d.content d.metadata) d.embedding = .ok d
  | _ => True

theorem Fidelity.textual_collection {a : Address} {c : Collection} (hname : c.name = a.name)
    (htime : c.createdAt.InEra) : textual.collection a c = .ok c := by
  simp only [collection, Timestamp.parse?_renderNumeric _ htime, ← hname]

namespace Catalog

/-- Everything in the catalog is read from its texts as it was put. -/
structure Readable {f : Fidelity} (k : Catalog f) : Prop where
  descriptors : ∀ a h, (a, h) ∈ k.holdings →
    Fidelity.textual.collection a h.descriptor = .ok h.descriptor
  documents : ∀ a h, (a, h) ∈ k.holdings → ∀ d ∈ h.documents, Fidelity.textual.document d = .ok d

namespace Readable

variable {f : Fidelity} {k : Catalog f} {a : Address} {h : Holding} {c : Collection}

theorem empty : Readable (Catalog.empty f) := ⟨by simp [Catalog.empty], by simp [Catalog.empty]⟩

theorem store (hk : k.Readable) (hc : Fidelity.textual.collection a h.descriptor = .ok h.descriptor)
    (hd : ∀ d ∈ h.documents, Fidelity.textual.document d = .ok d) : (k.store a h).Readable := by
  constructor
  · intro a' h' hm
    rcases Keyed.mem_put hm with heq | hm
    · cases heq
      exact hc
    · exact hk.descriptors a' h' hm
  · intro a' h' hm
    rcases Keyed.mem_put hm with heq | hm
    · cases heq
      exact hd
    · exact hk.documents a' h' hm

theorem create (hk : k.Readable) (hn : Keyed.find? a k.holdings = none)
    (hc : Fidelity.textual.collection a c = .ok c) :
    Readable (f := f) ⟨k.holdings ++ [(a, ⟨c, []⟩)]⟩ := by
  rw [← Keyed.put_of_find?_eq_none hn]
  exact hk.store hc fun d hd => absurd hd List.not_mem_nil

theorem erase (hk : k.Readable) (a : Address) : Readable (f := f) ⟨Keyed.erase a k.holdings⟩ := by
  have hmem : ∀ ah ∈ Keyed.erase a k.holdings, ah ∈ k.holdings := fun _ hm =>
    (Keyed.mem_erase.mp hm).1
  constructor
  · intro a' h' hm
    exact hk.descriptors a' h' (hmem _ hm)
  · intro a' h' hm
    exact hk.documents a' h' (hmem _ hm)

theorem snapshot_eq (hk : k.Readable) (hh : (a, h) ∈ k.holdings) :
    snapshot .textual a h = snapshot .exact a h := by
  unfold snapshot
  rw [hk.descriptors a h hh]
  rfl

end Readable

/-! ### Copies -/

/-- The two catalogs hold the same, all of which is read from its texts. -/
def Copies (k : Catalog .exact) (k' : Catalog .textual) : Prop :=
  k.holdings = k'.holdings ∧ k.Readable

variable {k : Catalog .exact} {k' : Catalog .textual} {a : Address}

lemma Copies.agree_holding (hk : Copies k k') (a : Address) :
    Agree (fun h h' => h = h' ∧ (a, h) ∈ k.holdings) (holding a k) (holding a k') := by
  unfold holding
  rw [← hk.1]
  cases hh : Keyed.find? a k.holdings with
  | none => exact .error _
  | some h => exact .ok ⟨rfl, Keyed.mem_of_find? hh⟩

theorem Copies.store {h : Holding} (hk : Copies k k')
    (hc : Fidelity.textual.collection a h.descriptor = .ok h.descriptor)
    (hd : ∀ d ∈ h.documents, Fidelity.textual.document d = .ok d) :
    Copies (k.store a h) (k'.store a h) :=
  ⟨congrArg (Keyed.put a h) hk.1, hk.2.store hc hd⟩

open SemanticStore.Action Backend

/-- **Copies answer a plain request alike, and the request makes copies of them.** -/
theorem sim_copies (r : Request) (hr : r.Plain) :
    Sim Copies Eq (r.perform (σ := Catalog .exact)) (r.perform (σ := Catalog .textual)) := by
  cases r with
  | hasCollection a =>
    refine Request.sim_read _ fun k k' hk => ?_
    exact congrArg (fun l => Except.ok (Keyed.contains a l)) hk.1
  | collection? a =>
    refine Request.sim_read _ fun k k' hk => ?_
    show Catalog.collection? a k = Catalog.collection? a k'
    unfold Catalog.collection?
    rw [← hk.1]
    cases hh : Keyed.find? a k.holdings with
    | none => rfl
    | some h => exact congrArg (Except.map some) (hk.2.snapshot_eq (Keyed.mem_of_find? hh)).symm
  | create a c =>
    refine Request.sim_write fun k k' hk => ?_
    show Agree Copies (Catalog.create a c k) (Catalog.create a c k')
    unfold Catalog.create
    rw [← hk.1]
    cases hc : Keyed.contains a k.holdings with
    | true => exact .error _
    | false =>
      have hread := Fidelity.textual_collection hr.1 hr.2
      exact .ok ⟨rfl, hk.2.create (Keyed.contains_eq_false.mp hc) hread⟩
  | redescribe a c =>
    refine Request.sim_write fun k k' hk => (hk.agree_holding a).map ?_
    rintro h _ ⟨rfl, hm⟩
    exact hk.store (Fidelity.textual_collection hr.1 hr.2) (hk.2.documents a h hm)
  | drop a =>
    refine Request.sim_change fun k k' hk => .ok ⟨?_, ?_, hk.2.erase a⟩
    · exact congrArg (Keyed.contains a) hk.1
    · exact congrArg (Keyed.erase a) hk.1
  | collections p =>
    refine Request.sim_read _ fun k k' hk => ?_
    show (k.holdings.filter _).mapM _ = (k'.holdings.filter _).mapM _
    rw [← hk.1]
    exact mapM_congr fun ah hah => (hk.2.snapshot_eq (List.mem_filter.mp hah).1).symm
  | hasDocument a id =>
    refine Request.sim_read _ fun k k' hk => Agree.eq_iff.mp ((hk.agree_holding a).map ?_)
    rintro h _ ⟨rfl, -⟩
    rfl
  | document? a id =>
    refine Request.sim_read _ fun k k' hk => Agree.eq_iff.mp ((hk.agree_holding a).bind ?_)
    rintro h _ ⟨rfl, hm⟩
    rw [Agree.eq_iff]
    unfold read?
    cases hd : Documents.find? id h.documents with
    | none => rfl
    | some d =>
      have hread := hk.2.documents a h hm d (Documents.mem_of_find? hd)
      exact congrArg (Except.map some) hread.symm
  | put a d =>
    refine Request.sim_write fun k k' hk => (hk.agree_holding a).map ?_
    rintro h _ ⟨rfl, hm⟩
    refine hk.store (hk.2.descriptors a h hm) fun e he => ?_
    -- of what the collection holds then, only the document that was put is new
    rcases Documents.mem_put he with rfl | he
    · exact hr
    · exact hk.2.documents a h hm e he
  | remove a id =>
    refine Request.sim_change fun k k' hk => (hk.agree_holding a).map ?_
    rintro h _ ⟨rfl, hm⟩
    refine ⟨rfl, hk.store (hk.2.descriptors a h hm) fun e he => ?_⟩
    exact hk.2.documents a h hm e (Documents.mem_erase.mp he).1
  | documents a =>
    refine Request.sim_read _ fun k k' hk => Agree.eq_iff.mp ((hk.agree_holding a).bind ?_)
    rintro h _ ⟨rfl, hm⟩
    rw [Agree.eq_iff]
    exact mapM_congr fun d hd => (hk.2.documents a h hm d hd).symm
  | count a =>
    refine Request.sim_read _ fun k k' hk => Agree.eq_iff.mp ((hk.agree_holding a).map ?_)
    rintro h _ ⟨rfl, -⟩
    rfl

end Catalog

namespace Backend

/-- **Memory and tables answer every run of plain requests alike.** -/
theorem memory_agrees_with_tables (rs : List Request) (h : ∀ r ∈ rs, r.Plain) :
    answers rs Memory.empty = answers rs Tables.empty := by
  calc answers rs Memory.empty
      = answers rs (Catalog.empty .exact) := Memory.refinement.answers_eq rs Memory.shows_empty
    _ = answers rs (Catalog.empty .textual) :=
      answers_eq_of_sim rs (fun r hr => Catalog.sim_copies r (h r hr)) ⟨rfl, .empty⟩
    _ = answers rs Tables.empty := (Tables.refinement.answers_eq rs Tables.shows_empty).symm

/-- A run that fills a collection, replaces a document, takes it out and drops the collection. -/
def filling : List Request :=
  let a : Address := ⟨"default", "animals"⟩
  let c : Collection := .fresh "animals" .cosine ⟨⟨2024, 2, 29, 23, 59, 59, 120000000⟩, by decide⟩
  [.create a c, .create a c, .put a ⟨"1", "fox", none, some [.one]⟩,
    .put a ⟨"2", "wolf", some [("age", .null)], none⟩, .redescribe a { c with dimension := some 1 },
    .put a ⟨"1", "a \"fox\"", none, some [.negZero]⟩, .documents a, .collections "default",
    .remove a "1", .remove a "1", .documents a, .count a, .drop a, .count a]

/-- Run `filling` is plain, so the backends agree on it. -/
theorem memory_agrees_with_tables_filling :
    (∀ r ∈ filling, r.Plain) ∧ answers filling Memory.empty = answers filling Tables.empty := by
  have h : ∀ r ∈ filling, r.Plain := by
    simp only [filling, List.forall_mem_cons, Request.Plain, true_and]
    refine ⟨⟨rfl, by decide⟩, ⟨rfl, by decide⟩, ?_, ?_, ⟨rfl, by decide⟩, ?_, by simp⟩
    all_goals
      unfold Body.decode Body.decode? Json.Raw.ofText? Body.encode Json.write
      rw [String.toList_ofList]
      rfl
  exact ⟨h, memory_agrees_with_tables filling h⟩

end Backend

end SemanticStore
