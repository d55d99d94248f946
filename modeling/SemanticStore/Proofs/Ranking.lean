import Mathlib.Data.List.Nodup
import SemanticStore.Ranking
import SemanticStore.Proofs.Metric

/-!
# Rankings

`Ranking.Nearest` says that hits are the nearest of a list of documents to a query: the right number
of them, with their distances, in the order of distance, and at equal distance in the order of the
documents, also compared with the documents left out. A ranking without a threshold of documents that
all have embeddings of the length of the query is of this kind (`Ranking.rank_nearest`).

It rests on the sort being stable: in the sorted list, what stands first is nearer, or at equal
distance and first in the documents (`Ranking.pairwise_mergeSort`).
-/

namespace SemanticStore

/-! ### Two elements of a list -/

section Order

variable {α : Type} {l : List α} {a b : α}

lemma sublist_or_sublist (ha : a ∈ l) (hb : b ∈ l) (hne : a ≠ b) :
    [a, b].Sublist l ∨ [b, a].Sublist l := by
  induction l with
  | nil => cases ha
  | cons x l ih =>
    rcases List.mem_cons.mp ha with rfl | hal
    · rcases List.mem_cons.mp hb with rfl | hbl
      · exact absurd rfl hne
      · exact .inl (.cons_cons _ (List.singleton_sublist.mpr hbl))
    · rcases List.mem_cons.mp hb with rfl | hbl
      · exact .inr (.cons_cons _ (List.singleton_sublist.mpr hal))
      · exact (ih hal hbl).imp (.cons x) (.cons x)

lemma not_sublist_of_sublist (hl : l.Nodup) (h : [a, b].Sublist l) : ¬ [b, a].Sublist l := by
  induction l with
  | nil => cases h
  | cons x l ih =>
    obtain ⟨hx, hl⟩ := List.nodup_cons.mp hl
    intro h'
    cases h with
    | cons _ h =>
      cases h' with
      | cons _ h' => exact ih hl h h'
      | cons_cons _ h' => exact hx (h.subset (List.mem_cons_of_mem _ (List.mem_singleton_self _)))
    | cons_cons _ h =>
      cases h' with
      | cons _ h' => exact hx (h'.subset (List.mem_cons_of_mem _ (List.mem_singleton_self _)))
      | cons_cons _ h' => exact hx (List.singleton_sublist.mp h)

end Order

namespace Ranking

/-! ### The sort is stable -/

lemma nearer_trans (g h i : Hit) (hgh : nearer g h = true) (hhi : nearer h i = true) :
    nearer g i = true := by
  unfold nearer at *
  rw [decide_eq_true_eq] at *
  exact hgh.trans hhi

lemma nearer_total (g h : Hit) : (nearer g h || nearer h g) = true := by
  unfold nearer
  simpa using Int.le_total g.2.rank h.2.rank

/-- **In the sorted list, what stands first is nearer, or at equal distance and first before.** -/
theorem pairwise_mergeSort {hits : List Hit} (hnodup : hits.Nodup) :
    (hits.mergeSort nearer).Pairwise fun g h =>
      g.2.rank ≤ h.2.rank ∧ (g.2.rank = h.2.rank → [g, h].Sublist hits) := by
  have hperm : (hits.mergeSort nearer).Perm hits := List.mergeSort_perm ..
  have hsorted := List.pairwise_mergeSort nearer_trans nearer_total hits
  have hnodup' : (hits.mergeSort nearer).Nodup := hperm.nodup_iff.mpr hnodup
  rw [List.pairwise_iff_forall_sublist] at hsorted ⊢
  intro g h hgh
  refine ⟨of_decide_eq_true (hsorted hgh), fun heq => ?_⟩
  have hg : g ∈ hits := hperm.mem_iff.mp (hgh.subset (List.mem_cons_self ..))
  have hh : h ∈ hits := hperm.mem_iff.mp (hgh.subset (by simp))
  have hne : g ≠ h := by simpa using hnodup'.sublist hgh
  rcases sublist_or_sublist hg hh hne with hbefore | hafter
  · exact hbefore
  · -- the sort would have kept them in the other order
    have hle : nearer h g = true := decide_eq_true heq.ge
    have hkept := List.pair_sublist_mergeSort nearer_trans nearer_total hle hafter
    exact absurd hkept (not_sublist_of_sublist hnodup' hgh)

/-! ### The nearest documents -/

/-- The hits are the nearest of the documents, at most `limit` of them. -/
structure Nearest (metric : Metric) (query : Embedding) (limit : ℕ) (documents : List Document)
    (hits : List Hit) : Prop where
  length : hits.length = min limit documents.length
  /-- no document is there twice -/
  ids : (hits.map (·.1.id)).Nodup
  /-- every hit is a document with the distance of its embedding -/
  stored : ∀ h ∈ hits, h.1 ∈ documents ∧
    ∃ e, h.1.embedding = some e ∧ h.2 = metric.distance query e
  /-- distances do not decrease -/
  sorted : hits.Pairwise fun g h => g.2.le h.2 = true
  /-- at equal distance, the document that comes first is first -/
  ties : hits.Pairwise fun g h => g.2.numEq h.2 = true → [g.1, h.1].Sublist documents
  /-- a document left out is not nearer than any hit, and comes after hits at its distance -/
  rest : ∀ d ∈ documents, d ∉ hits.map (·.1) → ∃ e, d.embedding = some e ∧ ∀ h ∈ hits,
    h.2.le (metric.distance query e) = true ∧
      (h.2.numEq (metric.distance query e) = true → [h.1, d].Sublist documents)

variable {metric : Metric} {query : Embedding} {documents : List Document}

/-- A document with its distance to the query; infinite if it has no embedding. -/
def hitOf (metric : Metric) (query : Embedding) (d : Document) : Hit :=
  (d, match d.embedding with
    | some e => metric.distance query e
    | none => .infinity)

lemma hitOf_of_embedding {d : Document} {e : Embedding} (he : d.embedding = some e) :
    hitOf metric query d = (d, metric.distance query e) := by
  unfold hitOf
  rw [he]

lemma score_eq (metric : Metric) (query : Embedding)
    (h : ∀ d ∈ documents, ∃ e, d.embedding = some e) :
    score metric query documents = documents.map (hitOf metric query) := by
  unfold score
  induction documents with
  | nil => rfl
  | cons d documents ih =>
    obtain ⟨⟨e, he⟩, hrest⟩ := List.forall_mem_cons.mp h
    have hd : (d.embedding.map fun e => (d, metric.distance query e)) =
        some (hitOf metric query d) := by
      rw [hitOf_of_embedding he, he]
      rfl
    rw [List.filterMap_cons, hd, ih hrest, List.map_cons]

lemma rank_none (metric : Metric) (query : Embedding) (limit : ℕ) (documents : List Document) :
    rank metric query limit none documents =
      ((score metric query documents).mergeSort nearer).take limit :=
  List.filter_eq_self.mpr fun _ _ => rfl

lemma map_hitOf_fst (metric : Metric) (query : Embedding) (documents : List Document) :
    (documents.map (hitOf metric query)).map (·.1) = documents := by
  rw [List.map_map]
  exact List.map_id' documents

section Embedded

variable (hembedded : ∀ d ∈ documents, ∃ e, d.embedding = some e ∧ e.length = query.length)
include hembedded

lemma exists_of_mem_hits {h : Hit} (hh : h ∈ documents.map (hitOf metric query)) :
    h.1 ∈ documents ∧
      ∃ e, h.1.embedding = some e ∧ e.length = query.length ∧ h.2 = metric.distance query e := by
  obtain ⟨d, hd, rfl⟩ := List.mem_map.mp hh
  obtain ⟨e, he, hlength⟩ := hembedded d hd
  rw [hitOf_of_embedding he]
  exact ⟨hd, e, he, hlength, rfl⟩

lemma ranked_hits {g h : Hit} (hg : g ∈ documents.map (hitOf metric query))
    (hh : h ∈ documents.map (hitOf metric query)) : g.2.Ranked h.2 := by
  obtain ⟨-, e, -, hlength, hdistance⟩ := exists_of_mem_hits hembedded hg
  obtain ⟨-, e', -, hlength', hdistance'⟩ := exists_of_mem_hits hembedded hh
  rw [hdistance, hdistance']
  exact metric.ranked_distance hlength hlength'

/-- **In the sorted hits, what stands first is nearer, or at numerically equal distance and first in
the documents.** -/
theorem pairwise_hits (metric : Metric) (hids : (documents.map (·.id)).Nodup) :
    ((documents.map (hitOf metric query)).mergeSort nearer).Pairwise fun g h =>
      g.2.le h.2 = true ∧ (g.2.numEq h.2 = true → [g.1, h.1].Sublist documents) := by
  have hfst := map_hitOf_fst metric query documents
  have hnodup : (documents.map (hitOf metric query)).Nodup := by
    refine List.Nodup.of_map (·.1) ?_
    rw [hfst]
    exact List.Nodup.of_map _ hids
  have hperm := List.mergeSort_perm (documents.map (hitOf metric query)) nearer
  refine (pairwise_mergeSort hnodup).imp_of_mem fun {g h} hg hh hgh => ?_
  -- two hits compare as their ranks do
  have hranked := ranked_hits hembedded (hperm.mem_iff.mp hg) (hperm.mem_iff.mp hh)
  refine ⟨hranked.le_iff.mpr hgh.1, fun heq => ?_⟩
  have hbefore := (hgh.2 (hranked.numEq_iff.mp heq)).map (·.1)
  rwa [hfst] at hbefore

end Embedded

/-- **A ranking without a threshold gives the nearest documents.** -/
theorem rank_nearest (metric : Metric) (query : Embedding) (limit : ℕ)
    (hids : (documents.map (·.id)).Nodup)
    (hembedded : ∀ d ∈ documents, ∃ e, d.embedding = some e ∧ e.length = query.length) :
    Nearest metric query limit documents (rank metric query limit none documents) := by
  rw [rank_none, score_eq metric query fun d hd => (hembedded d hd).imp fun _ h => h.1]
  have hperm := List.mergeSort_perm (documents.map (hitOf metric query)) nearer
  have hpairs := pairwise_hits hembedded metric hids
  generalize (documents.map (hitOf metric query)).mergeSort nearer = sorted at hperm hpairs ⊢
  have hsplit : sorted.take limit ++ sorted.drop limit = sorted := List.take_append_drop ..
  obtain ⟨htake, -, hacross⟩ := List.pairwise_append.mp (hsplit.symm ▸ hpairs)
  refine ⟨?_, ?_, fun h hh => ?_, htake.imp And.left, htake.imp And.right, fun d hd hout => ?_⟩
  · rw [List.length_take, hperm.length_eq, List.length_map]
  · have hall : (sorted.map (·.1.id)).Nodup := by
      refine ((hperm.map (·.1.id)).nodup_iff).mpr ?_
      rw [List.map_map]
      exact hids
    exact hall.sublist ((List.take_sublist limit sorted).map _)
  · have hmem : h ∈ sorted := List.mem_of_mem_take hh
    obtain ⟨hd, e, he, -, hdistance⟩ := exists_of_mem_hits hembedded (hperm.mem_iff.mp hmem)
    exact ⟨hd, e, he, hdistance⟩
  · obtain ⟨e, he, -⟩ := hembedded d hd
    have hmem : hitOf metric query d ∈ sorted := hperm.mem_iff.mpr (List.mem_map_of_mem hd)
    rw [hitOf_of_embedding he, ← hsplit, List.mem_append] at hmem
    -- a document that is not listed stands behind all that are
    have hdrop : (d, metric.distance query e) ∈ sorted.drop limit :=
      hmem.resolve_left fun htaken =>
        hout (List.mem_map_of_mem (f := fun h : Hit => h.1) htaken)
    refine ⟨e, he, fun h hh => ?_⟩
    have hlater := hacross h hh (d, metric.distance query e) hdrop
    dsimp only at hlater
    exact hlater

end Ranking

end SemanticStore
