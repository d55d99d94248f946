import Mathlib.Data.List.Induction
import SemanticStore.Proofs.Backend.Tables

/-!
# How runs number rows

`Backend.Arrived` tells which request of a run brought an id: the put after which the id has been
there without a break. `Tables.effect` is what a request can do to the rows of the two tables, and
`Tables.Chronicled` what every run keeps: rows are numbered in the order in which their ids arrived.
-/

namespace SemanticStore

/-! ### Runs -/

namespace Backend

variable {σ : Type} [Backend σ]

/-- The state after requests made one after the other. -/
def after (rs : List Request) (s : σ) : σ := rs.foldl (fun s r => (r.perform.exec s).2) s

lemma after_concat (rs : List Request) (q : Request) (s : σ) :
    after (rs ++ [q]) s = (q.perform.exec (after rs s)).2 := List.foldl_append

/-- The document is there. -/
def Has (a : Address) (id : String) (s : σ) : Prop := Backend.hasDocument a id s = .ok true

/-- Request number `n` of the run puts the id where it is not, and from then on the id is there. -/
structure Arrived (rs : List Request) (s : σ) (a : Address) (id : String) (n : ℕ) : Prop where
  put : ∃ d, rs[n]? = some (.put a d) ∧ d.id = id
  absent : ¬ Has a id (after (rs.take n) s)
  present : ∀ m, n < m → m ≤ rs.length → Has a id (after (rs.take m) s)

namespace Arrived

variable {rs : List Request} {s : σ} {a : Address} {id : String} {m n : ℕ}

lemma lt_length (h : Arrived rs s a id n) : n < rs.length := by
  obtain ⟨d, hd, -⟩ := h.put
  exact (List.getElem?_eq_some_iff.mp hd).1

theorem unique (hm : Arrived rs s a id m) (hn : Arrived rs s a id n) : m = n := by
  rcases Nat.lt_trichotomy m n with h | h | h
  · exact absurd (hm.present n h (Nat.le_of_lt hn.lt_length)) hn.absent
  · exact h
  · exact absurd (hn.present m h (Nat.le_of_lt hm.lt_length)) hm.absent

/-- One more request leaves the arrival where it was, if the id is there afterwards. -/
theorem concat (h : Arrived rs s a id n) {q : Request} (hq : Has a id (after (rs ++ [q]) s)) :
    Arrived (rs ++ [q]) s a id n := by
  have hlt := h.lt_length
  obtain ⟨d, hd, hid⟩ := h.put
  refine ⟨⟨d, ?_, hid⟩, ?_, fun m hnm hm => ?_⟩
  · rw [List.getElem?_append_left hlt, hd]
  · rw [List.take_append_of_le_length (Nat.le_of_lt hlt)]
    exact h.absent
  · rw [List.length_append, List.length_singleton] at hm
    rcases Nat.lt_or_ge rs.length m with hlast | hm'
    · obtain rfl : m = rs.length + 1 := by omega
      rwa [List.take_of_length_le (by simp)]
    · rw [List.take_append_of_le_length hm']
      exact h.present m hnm hm'

/-- An id arrives with the put after which it is there and before which it is not. -/
theorem of_put {d : Document} (habsent : ¬ Has a d.id (after rs s))
    (hpresent : Has a d.id (after (rs ++ [.put a d]) s)) :
    Arrived (rs ++ [.put a d]) s a d.id rs.length := by
  refine ⟨⟨d, by simp, rfl⟩, ?_, fun m hnm hm => ?_⟩
  · rwa [List.take_left' rfl]
  · rw [List.take_of_length_le (by simp; omega)]
    exact hpresent

end Arrived

theorem Simulation.after_related {τ : Type} [Backend τ] {R : σ → τ → Prop} (hR : Refinement R)
    {s : σ} {t : τ} (hst : R s t) (rs : List Request) : R (after rs s) (after rs t) := by
  induction rs generalizing s t with
  | nil => exact hst
  | cons r rs ih => exact ih (hR.perform_sim r hst).2

end Backend

/-! ### Rows -/

/-- Where the document of a row belongs. -/
def DocumentRow.address (r : DocumentRow) : Address := ⟨r.partition, r.collection⟩

lemma DocumentRow.at_iff {r : DocumentRow} {a : Address} {id : String} :
    r.At a id ↔ r.address = a ∧ r.id = id := by
  unfold At In address
  rw [Address.mk.injEq]

namespace Tables

open Backend (Request Has Arrived after)

/-- A row can be told from all others by its key, and by its number from those of other ids. -/
def numbering (ds : Table DocumentRow) : List (ℕ × Address × String) :=
  ds.rows.map fun r => (r.seq, r.address, r.id)

/-- What a request can do to the rows of documents. -/
inductive Effect (q : Request) (ds ds' : Table DocumentRow) : Prop where
  /-- it takes out rows, and rewrites rows under their keys and numbers -/
  | kept (rows : (numbering ds').Sublist (numbering ds))
  /-- it puts a new id, in a row with the next number -/
  | added {a : Address} {d : Document} {row : DocumentRow} (put : q = .put a d)
      (new : ∀ r ∈ ds.rows, ¬ r.At a d.id) (place : row.At a d.id)
      (number : row.seq = ds.lastSeq + 1) (rows : ds'.rows = ds.rows ++ [row])

variable {cs : Table CollectionRow} {ds ds' : Table DocumentRow} {a : Address} {id : String}

/-- A row of the rows that are kept was there with its key and its number. -/
lemma mem_of_numbering (h : (numbering ds').Sublist (numbering ds)) {r : DocumentRow}
    (hr : r ∈ ds'.rows) :
    ∃ s ∈ ds.rows, s.seq = r.seq ∧ s.address = r.address ∧ s.id = r.id := by
  have hmem : (r.seq, r.address, r.id) ∈ numbering ds :=
    h.mem (List.mem_map_of_mem (f := fun r : DocumentRow => (r.seq, r.address, r.id)) hr)
  obtain ⟨s, hs, heq⟩ := List.mem_map.mp hmem
  simp only [Prod.mk.injEq] at heq
  exact ⟨s, hs, heq⟩

lemma numbering_upsert_stored {body : String} {embedding : Option (List UInt8)}
    (h : ∃ r ∈ ds.rows, r.At a id) : numbering (upsert a id body embedding ds) = numbering ds := by
  have hany : (ds.rows.any fun r => r.At a id) = true := by simpa using h
  unfold upsert numbering
  rw [hany, if_pos rfl, List.map_map]
  refine List.map_congr_left fun r _ => ?_
  dsimp only [Function.comp_apply]
  split <;> rfl

/-- Writing a document rewrites its row or adds one. -/
theorem effect_upsert (a : Address) (d : Document) (body : String)
    (embedding : Option (List UInt8)) (ds : Table DocumentRow) :
    Effect (.put a d) ds (upsert a d.id body embedding ds) := by
  by_cases h : ∃ r ∈ ds.rows, r.At a d.id
  · exact .kept (numbering_upsert_stored h ▸ List.Sublist.refl _)
  · have hany : (ds.rows.any fun r => r.At a d.id) = false := by simpa using h
    unfold upsert
    rw [hany, if_neg Bool.false_ne_true]
    exact .added rfl (fun r hr hat => h ⟨r, hr, hat⟩) ⟨⟨rfl, rfl⟩, rfl⟩ rfl rfl

/-- A row that is rewritten keeps its number, but the next one is used up. -/
example (a : Address) (body : String) :
    ((upsert a "2" body none (upsert a "1" body none (upsert a "1" body none .empty))).rows.map
      (·.seq)) = [1, 3] := by
  simp [upsert, Table.empty, DocumentRow.At, DocumentRow.In]

lemma effect_filter (q : Request) (ds : Table DocumentRow) (p : DocumentRow → Bool) :
    Effect q ds { ds with rows := ds.rows.filter p } :=
  .kept (List.filter_sublist.map _)

lemma Effect.refl (q : Request) (ds : Table DocumentRow) : Effect q ds ds := .kept (.refl _)

/-- The time that a request gives a collection. -/
def givenTime? : Request → Option Timestamp
  | .create _ c | .redescribe _ c => some c.createdAt
  | _ => none

/-- After a request, collections are dated as before or as the request says. -/
def Dated (q : Request) (cs cs' : Table CollectionRow) : Prop :=
  ∀ c ∈ cs'.rows, (∃ b ∈ cs.rows, c.createdAt = b.createdAt) ∨
    ∃ t, givenTime? q = some t ∧ c.createdAt = t.renderNumeric

lemma dated_of_subset {q : Request} {cs cs' : Table CollectionRow} (h : cs'.rows ⊆ cs.rows) :
    Dated q cs cs' := fun c hc => .inl ⟨c, h hc, rfl⟩

/-! ### Requests -/

lemma exec_read_snd {α β : Type} (f : Tables → Except Fault α) (F : α → β) (t : Tables) :
    ((do return F (← .read f) : Action Tables β).exec t).2 = t := by
  rw [Action.exec_bind_pure, Action.exec_read]

lemma exec_write_snd {α : Type} (f : Tables → Except Fault Tables) (x : α) (t : Tables) :
    ((do Action.write f; return x : Action Tables α).exec t).2 =
      match f t with
      | .ok t' => t'
      | .error _ => t := by
  rw [Action.exec_bind, Action.exec_write]
  cases f t <;> rfl

lemma exec_change_snd {α β : Type} (f : Tables → Except Fault (α × Tables)) (F : α → β)
    (t : Tables) :
    ((do return F (← .change f) : Action Tables β).exec t).2 =
      match f t with
      | .ok (_, t') => t'
      | .error _ => t := by
  rw [Action.exec_bind_pure, Action.exec_change]
  cases f t <;> rfl

lemma create_eq (a : Address) (c : Collection) (cs : Table CollectionRow)
    (ds : Table DocumentRow) :
    Backend.create a c (⟨some cs, some ds⟩ : Tables) =
      if cs.rows.any fun r => r.At a then .error (.collectionPresent a.display)
      else .ok ⟨some ⟨cs.rows ++ [⟨cs.lastSeq + 1, a.partition, a.name, dimensionCell c.dimension,
        c.metric.name, c.createdAt.renderNumeric⟩], cs.lastSeq + 1⟩, some ds⟩ := by
  show create a c _ = _
  unfold create
  simp only [hasCollection, collectionTable, bind, Except.bind]
  split <;> rfl

lemma redescribe_eq (a : Address) (c : Collection) (cs : Table CollectionRow)
    (ds : Table DocumentRow) :
    Backend.redescribe a c (⟨some cs, some ds⟩ : Tables) =
      if cs.rows.any fun r => r.At a then
        .ok ⟨some { cs with
          rows := cs.rows.map fun r =>
            if r.At a then
              { r with
                dimension := dimensionCell c.dimension
                metric := c.metric.name
                createdAt := c.createdAt.renderNumeric }
            else r }, some ds⟩
      else .error (.collectionMissing a.display) := rfl

lemma require_eq_ite (a : Address) (cs : Table CollectionRow) (ds : Table DocumentRow) :
    require a ⟨some cs, some ds⟩ =
      if cs.rows.any fun r => r.At a then .ok () else .error (.collectionMissing a.display) := rfl

lemma put_eq (a : Address) (d : Document) (cs : Table CollectionRow) (ds : Table DocumentRow) :
    Backend.put a d (⟨some cs, some ds⟩ : Tables) =
      (require a ⟨some cs, some ds⟩).map fun _ => ⟨some cs, some <| upsert a d.id
        (Body.encode d.content d.metadata) (d.embedding.map Embedding.Blob.encode) ds⟩ := by
  show put a d _ = _
  unfold put
  cases require a ⟨some cs, some ds⟩ <;> rfl

lemma remove_eq (a : Address) (id : String) (cs : Table CollectionRow) (ds : Table DocumentRow) :
    Backend.remove a id (⟨some cs, some ds⟩ : Tables) =
      (require a ⟨some cs, some ds⟩).map fun _ => (ds.rows.any fun r => r.At a id,
        ⟨some cs, some { ds with rows := ds.rows.filter fun r => ¬ r.At a id }⟩) := by
  show remove a id _ = _
  unfold remove
  cases require a ⟨some cs, some ds⟩ <;> rfl

/-- **What every request does to the rows.** -/
theorem effect (q : Request) (cs : Table CollectionRow) (ds : Table DocumentRow) :
    ∃ cs' ds', (q.perform.exec (⟨some cs, some ds⟩ : Tables)).2 = ⟨some cs', some ds'⟩ ∧
      Dated q cs cs' ∧ Effect q ds ds' := by
  have hsame : Dated q cs cs := dated_of_subset (List.Subset.refl _)
  cases q with
  | hasCollection | collection? | collections | hasDocument | document? | documents | count =>
    exact ⟨cs, ds, exec_read_snd _ _ _, hsame, .refl _ ds⟩
  | create a c =>
    rw [Request.perform, exec_write_snd, create_eq]
    by_cases h : (cs.rows.any fun r => r.At a) = true
    · rw [if_pos h]
      exact ⟨cs, ds, rfl, hsame, .refl _ ds⟩
    · rw [if_neg h]
      refine ⟨_, ds, rfl, fun r hr => ?_, .refl _ ds⟩
      rcases List.mem_append.mp hr with hr | hr
      · exact .inl ⟨r, hr, rfl⟩
      · obtain rfl := List.mem_singleton.mp hr
        exact .inr ⟨c.createdAt, rfl, rfl⟩
  | redescribe a c =>
    rw [Request.perform, exec_write_snd, redescribe_eq]
    by_cases h : (cs.rows.any fun r => r.At a) = true
    · rw [if_pos h]
      refine ⟨_, ds, rfl, fun r hr => ?_, .refl _ ds⟩
      obtain ⟨b, hb, rfl⟩ := List.mem_map.mp hr
      split
      · exact .inr ⟨c.createdAt, rfl, rfl⟩
      · exact .inl ⟨b, hb, rfl⟩
    · rw [if_neg h]
      exact ⟨cs, ds, rfl, hsame, .refl _ ds⟩
  | drop a =>
    rw [Request.perform, exec_change_snd]
    exact ⟨_, _, rfl, dated_of_subset List.filter_sublist.subset, effect_filter _ ds _⟩
  | put a d =>
    rw [Request.perform, exec_write_snd, put_eq]
    cases require a ⟨some cs, some ds⟩ with
    | ok => exact ⟨cs, _, rfl, hsame, effect_upsert a d _ _ ds⟩
    | error => exact ⟨cs, ds, rfl, hsame, .refl _ ds⟩
  | remove a id =>
    rw [Request.perform, exec_change_snd, remove_eq]
    cases require a ⟨some cs, some ds⟩ with
    | ok => exact ⟨cs, _, rfl, hsame, effect_filter _ ds _⟩
    | error => exact ⟨cs, ds, rfl, hsame, .refl _ ds⟩

/-! ### Runs -/

variable {cs' : Table CollectionRow} {k : Catalog .textual} {rs : List Request} {q : Request}

/-- A document is there just if a row has its key: the collection of the row is there too. -/
lemma Keeps.has_iff (hk : Keeps cs ds k) :
    Has a id (⟨some cs, some ds⟩ : Tables) ↔ ∃ r ∈ ds.rows, r.At a id := by
  show hasDocument a id _ = _ ↔ _
  unfold hasDocument
  rw [hk.require_eq]
  unfold Catalog.holding
  cases hh : Keyed.find? a k.holdings with
  | none =>
    refine iff_of_false (by simp [Except.map, bind, Except.bind]) ?_
    rintro ⟨r, hr, hat⟩
    have hnone := List.filter_eq_nil_iff.mp (hk.filter_eq_nil hh) r hr
    exact absurd (decide_eq_true hat.1) hnone
  | some h => simp [documentTable, Except.map, bind, Except.bind]

/-- Every state of a run that began with an empty database keeps a catalog. -/
lemma exists_keeps (h : after rs empty = ⟨some cs, some ds⟩) : ∃ k, Keeps cs ds k := by
  obtain ⟨cs', ds', heq, hk⟩ := refinement.after_related shows_empty rs
  rw [h] at heq
  cases heq
  exact ⟨_, hk⟩

/-- Rows are numbered as their ids arrived in a run. -/
structure Chronicled (rs : List Request) (ds : Table DocumentRow) : Prop where
  arrived : ∀ r ∈ ds.rows, ∃ n, Arrived rs empty r.address r.id n
  order : ∀ r ∈ ds.rows, ∀ s ∈ ds.rows, ∀ m n, Arrived rs empty r.address r.id m →
    Arrived rs empty s.address s.id n → (r.seq < s.seq ↔ m < n)

section Step

variable (h : Chronicled rs ds) (hbefore : after rs empty = ⟨some cs, some ds⟩)
  (hafter : after (rs ++ [q]) empty = ⟨some cs', some ds'⟩)

include hafter in
lemma has_of_mem {r : DocumentRow} (hr : r ∈ ds'.rows) :
    Has r.address r.id (after (rs ++ [q]) empty) := by
  obtain ⟨k, hk⟩ := exists_keeps hafter
  rw [hafter, hk.has_iff]
  exact ⟨r, hr, DocumentRow.at_iff.mpr ⟨rfl, rfl⟩⟩

include h hafter in
/-- Where no row is added, every row was there, and its id arrived when it did. -/
lemma Chronicled.concat_kept (hrows : (numbering ds').Sublist (numbering ds)) :
    Chronicled (rs ++ [q]) ds' := by
  have hold : ∀ r ∈ ds'.rows, ∃ s ∈ ds.rows, s.seq = r.seq ∧
      ∃ n, Arrived rs empty s.address s.id n ∧ Arrived (rs ++ [q]) empty r.address r.id n := by
    intro r hr
    obtain ⟨s, hs, hseq, haddress, hid⟩ := mem_of_numbering hrows hr
    obtain ⟨n, hn⟩ := h.arrived s hs
    refine ⟨s, hs, hseq, n, hn, ?_⟩
    rw [haddress, hid] at hn
    exact hn.concat (has_of_mem hafter hr)
  refine ⟨fun r hr => ?_, fun r hr r' hr' m n hm hn => ?_⟩
  · obtain ⟨s, hs, -, n, -, hn⟩ := hold r hr
    exact ⟨n, hn⟩
  · obtain ⟨s, hs, hseq, m', hsm, hrm⟩ := hold r hr
    obtain ⟨s', hs', hseq', n', hsn, hrn⟩ := hold r' hr'
    obtain rfl := hm.unique hrm
    obtain rfl := hn.unique hrn
    rw [← hseq, ← hseq']
    exact h.order s hs s' hs' m n hsm hsn

include h hbefore hafter in
/-- A row that is added has the greatest number and arrived last. -/
lemma Chronicled.concat_added {d : Document} {row : DocumentRow} (hput : q = .put a d)
    (hnew : ∀ r ∈ ds.rows, ¬ r.At a d.id) (hplace : row.At a d.id)
    (hnumber : row.seq = ds.lastSeq + 1) (hrows : ds'.rows = ds.rows ++ [row]) :
    Chronicled (rs ++ [q]) ds' := by
  obtain ⟨k, hk⟩ := exists_keeps hbefore
  have hmem (r : DocumentRow) : r ∈ ds'.rows ↔ r ∈ ds.rows ∨ r = row := by
    rw [hrows, List.mem_append, List.mem_singleton]
  have hold : ∀ r ∈ ds.rows, r.seq < row.seq ∧ ∃ n < rs.length,
      Arrived rs empty r.address r.id n ∧ Arrived (rs ++ [q]) empty r.address r.id n := by
    intro r hr
    obtain ⟨n, hn⟩ := h.arrived r hr
    have hlast := hk.documentsNumbered.last r hr
    exact ⟨by omega, n, hn.lt_length, hn, hn.concat (has_of_mem hafter ((hmem r).mpr (.inl hr)))⟩
  have hrow : Arrived (rs ++ [q]) empty row.address row.id rs.length := by
    have hpresent := has_of_mem hafter ((hmem row).mpr (.inr rfl))
    obtain ⟨haddress, hid⟩ := DocumentRow.at_iff.mp hplace
    subst hput
    rw [haddress, hid] at hpresent ⊢
    refine .of_put ?_ hpresent
    rw [hbefore, hk.has_iff]
    rintro ⟨r, hr, hat⟩
    exact hnew r hr hat
  refine ⟨fun r hr => ?_, fun r hr s hs m n hm hn => ?_⟩
  · rcases (hmem r).mp hr with hr | rfl
    · obtain ⟨-, n, -, -, hn⟩ := hold r hr
      exact ⟨n, hn⟩
    · exact ⟨_, hrow⟩
  · rcases (hmem r).mp hr with hr | rfl <;> rcases (hmem s).mp hs with hs | rfl
    · obtain ⟨-, m', -, hm', hrm⟩ := hold r hr
      obtain ⟨-, n', -, hn', hsn⟩ := hold s hs
      obtain rfl := hm.unique hrm
      obtain rfl := hn.unique hsn
      exact h.order r hr s hs m n hm' hn'
    · obtain ⟨hlt, m', hm', -, hrm⟩ := hold r hr
      obtain rfl := hm.unique hrm
      obtain rfl := hn.unique hrow
      exact iff_of_true hlt hm'
    · obtain ⟨hlt, n', hn', -, hsn⟩ := hold s hs
      obtain rfl := hm.unique hrow
      obtain rfl := hn.unique hsn
      exact iff_of_false (Nat.lt_asymm hlt) (Nat.lt_asymm hn')
    · obtain rfl := hm.unique hn
      exact iff_of_false (Nat.lt_irrefl _) (Nat.lt_irrefl _)

include h hbefore hafter in
/-- One more request keeps the order of the rows. -/
theorem Chronicled.concat (heffect : Effect q ds ds') : Chronicled (rs ++ [q]) ds' := by
  cases heffect with
  | kept hrows => exact h.concat_kept hafter hrows
  | added hput hnew hplace hnumber hrows =>
    exact h.concat_added hbefore hafter hput hnew hplace hnumber hrows

end Step

/-- Collections are dated as requests of a run said. -/
def DatedBy (rs : List Request) (cs : Table CollectionRow) : Prop :=
  ∀ c ∈ cs.rows, ∃ q ∈ rs, ∃ t, givenTime? q = some t ∧ c.createdAt = t.renderNumeric

lemma DatedBy.concat (h : DatedBy rs cs) (hq : Dated q cs cs') : DatedBy (rs ++ [q]) cs' := by
  intro c hc
  rcases hq c hc with ⟨b, hb, heq⟩ | ⟨t, ht, heq⟩
  · obtain ⟨q', hq', t, ht, htime⟩ := h b hb
    exact ⟨q', List.mem_append_left _ hq', t, ht, heq.trans htime⟩
  · exact ⟨q, List.mem_append_right _ (List.mem_singleton_self q), t, ht, heq⟩

/-- **The rows after a run tell what the run did.** -/
theorem after_rows (rs : List Request) : ∃ cs ds, after rs empty = ⟨some cs, some ds⟩ ∧
    DatedBy rs cs ∧ Chronicled rs ds := by
  induction rs using List.reverseRecOn with
  | nil =>
    have hnone : ∀ r ∈ (Table.empty (ρ := DocumentRow)).rows, False := by simp [Table.empty]
    exact ⟨.empty, .empty, rfl, by simp [DatedBy, Table.empty],
      ⟨fun r hr => (hnone r hr).elim, fun r hr => (hnone r hr).elim⟩⟩
  | append_singleton rs q ih =>
    obtain ⟨cs, ds, hbefore, hdated, hchronicled⟩ := ih
    obtain ⟨cs', ds', hstep, hdated', heffect⟩ := effect q cs ds
    have hafter : after (rs ++ [q]) empty = ⟨some cs', some ds'⟩ := by
      rw [Backend.after_concat, hbefore, hstep]
    exact ⟨cs', ds', hafter, hdated.concat hdated', hchronicled.concat hbefore hafter heffect⟩

end Tables

end SemanticStore
