import Mathlib.Data.List.Perm.Subperm
import SemanticStore.Proofs.NonFinite

/-!
# A vector and itself

The difference of a finite number and itself is plus zero, so the arithmetic of the Euclidean distance
of a finite vector to itself is exact, and cosine does not even begin it: the distance is plus zero
(`Metric.distance_self`).

In a ranking a document with the vector of the query therefore stands first, but for documents at
distance zero that come before it (`Ranking.rank_self`).
-/

namespace SemanticStore

open Float.Model (Format UnpackedFloat)
open Scalar

/-! ### Numbers -/

namespace Single

variable {f : UnpackedFloat}

lemma compare_self (h : ¬ Special f) : f.compare f = some .eq := by
  cases f with
  | infinity s => exact absurd trivial h
  | notANumber => exact absurd trivial h
  | zero s => rfl
  | finite s m e hm => cases s <;> simp [UnpackedFloat.compare]

lemma sub_self (h : ¬ Special f) : UnpackedFloat.sub Format.binary32 f f = .zero .positive := by
  cases f with
  | infinity s => exact absurd trivial h
  | notANumber => exact absurd trivial h
  | zero s => cases s <;> rfl
  | finite s m e hm => simp [UnpackedFloat.sub, UnpackedFloat.normalize]

end Single

namespace Scalar

variable {x : Scalar}

lemma not_special_of_isFinite (h : x.isFinite = true) : ¬ Single.Special x.value := by
  intro hs
  rw [(isFinite_eq_false_iff x).mpr hs] at h
  cases h

lemma numEq_self (h : x.isFinite = true) : x.numEq x = true := by
  rw [numEq_eq, Single.compare_self (not_special_of_isFinite h)]
  rfl

lemma pack_zero : pack (.zero .positive) = zero := rfl

/-- The difference has no minus sign, whatever the sign of the number. -/
lemma sub_self (h : x.isFinite = true) : x - x = zero := by
  rw [sub_eq, Single.sub_self (not_special_of_isFinite h), pack_zero]

lemma zero_mul_zero : zero * zero = zero := by
  rw [mul_eq, value_zero]
  rfl

lemma zero_add_zero : zero + zero = zero := by
  rw [add_eq, value_zero]
  rfl

lemma negZero_add_zero : negZero + zero = zero := by
  rw [add_eq, value_negZero, value_zero]
  rfl

lemma sqrt_zero : zero.sqrt = zero := by
  rw [sqrt_eq, value_zero]
  rfl

lemma Unsigned.eq_zero (hu : x.Unsigned) (h : x.rank ≤ zero.rank) : x = zero := by
  have hzero : zero.rank = 0 := rfl
  rw [hu.rank_eq, hzero] at h
  have hbits : x.bits = 0 := UInt32.toNat_inj.mp (by simpa using h)
  exact congrArg Scalar.mk hbits

end Scalar

/-! ### Distances -/

namespace Embedding

lemma sum_zeros {terms : List Scalar} (h : ∀ t ∈ terms, t = zero) (hne : terms ≠ []) :
    sum terms = zero := by
  have hfold : ∀ l : List Scalar, (∀ t ∈ l, t = zero) → l.foldl (· + ·) zero = zero := by
    intro l
    induction l with
    | nil => simp
    | cons t l ih =>
      intro hl
      obtain ⟨ht, hrest⟩ := List.forall_mem_cons.mp hl
      rw [List.foldl_cons, ht, zero_add_zero, ih hrest]
  obtain ⟨t, l, rfl⟩ := List.exists_cons_of_ne_nil hne
  obtain ⟨ht, hrest⟩ := List.forall_mem_cons.mp h
  unfold sum
  rw [List.foldl_cons, ht, negZero_add_zero, hfold l hrest]

end Embedding

namespace Metric

variable {a : Embedding}

lemma sameComponents_self (h : a.isFinite = true) : sameComponents a a = true := by
  unfold Embedding.isFinite at h
  induction a with
  | nil => rfl
  | cons x a ih =>
    rw [List.all_cons, Bool.and_eq_true] at h
    rw [sameComponents, numEq_self h.1, ih h.2]
    rfl

lemma euclideanDistance_self (h : a.isFinite = true) (hne : a ≠ []) :
    euclideanDistance a a = zero := by
  unfold euclideanDistance
  rw [Embedding.sum_zeros, sqrt_zero]
  · intro t ht
    rw [List.zipWith_self, List.mem_map] at ht
    obtain ⟨x, hx, rfl⟩ := ht
    rw [Scalar.sub_self (List.all_eq_true.mp h x hx), zero_mul_zero]
  · simpa [List.zipWith_self] using hne

/-- **A finite vector is at distance plus zero from itself.** -/
theorem distance_self (metric : Metric) (h : a.isFinite = true) (hne : a ≠ []) :
    metric.distance a a = zero := by
  have hcomputed : metric.computed a a = zero := by
    cases metric with
    | cosine =>
      show cosineDistance a a = zero
      unfold cosineDistance
      rw [if_pos (sameComponents_self h)]
    | euclidean => exact euclideanDistance_self h hne
  rw [distance_eq, hcomputed]
  rfl

end Metric

/-! ### Rankings -/

namespace Ranking

variable {metric : Metric} {query : Embedding} {limit : ℕ} {threshold : Option Scalar}
  {earlier later : List Document} {stored : Document}

/-- The documents at distance zero from a query. -/
def matching (metric : Metric) (query : Embedding) (documents : List Document) : List Hit :=
  (score metric query documents).filter fun h => h.2.numEq .zero

/-- Of what stands ahead of a document with the vector of the query, each is at distance zero and
comes before the document. -/
lemma mem_matching_of_ahead (hne : query ≠ [])
    (hids : ((earlier ++ stored :: later).map (·.id)).Nodup)
    (hembedded : ∀ d ∈ earlier ++ stored :: later,
      ∃ e, d.embedding = some e ∧ e.length = query.length)
    {ahead behind : List Hit}
    (hsorted : ((earlier ++ stored :: later).map (hitOf metric query)).mergeSort nearer =
      ahead ++ (stored, .zero) :: behind) :
    ∀ g ∈ ahead, g.2 = zero ∧ g ∈ matching metric query earlier := by
  intro g hg
  have hpairs := pairwise_hits hembedded metric hids
  have hperm := List.mergeSort_perm ((earlier ++ stored :: later).map (hitOf metric query)) nearer
  rw [hsorted] at hpairs hperm
  have hmem : g ∈ (earlier ++ stored :: later).map (hitOf metric query) :=
    hperm.mem_iff.mp (List.mem_append_left _ hg)
  have hself : (stored, zero) ∈ (earlier ++ stored :: later).map (hitOf metric query) :=
    hperm.mem_iff.mp (by simp)
  obtain ⟨hle, hties⟩ := (List.pairwise_append.mp hpairs).2.2 g hg _ (List.mem_cons_self ..)
  have hranked := ranked_hits hembedded hmem hself
  -- the distance has no sign bit, so what is not behind zero is zero
  obtain ⟨hd, e, he, hlength, hdistance⟩ := exists_of_mem_hits hembedded hmem
  have hunsigned : g.2.Unsigned := by
    rw [hdistance]
    refine Metric.unsigned_distance ?_
    cases metric with
    | cosine => exact Metric.unsigned_cosineDistance query e
    | euclidean => exact Metric.unsigned_euclideanDistance hlength hne
  have hzero : g.2 = zero := hunsigned.eq_zero (hranked.le_iff.mp hle)
  have hbefore := hties (hranked.numEq_iff.mpr (congrArg Scalar.rank hzero))
  have hnodup : (earlier ++ stored :: later).Nodup := List.Nodup.of_map _ hids
  have hearlier : g.1 ∈ earlier := by
    rcases List.mem_append.mp hd with hd | hd
    · exact hd
    · rcases List.mem_cons.mp hd with hd | hd
      · exact absurd (hnodup.sublist hbefore) (by simp [hd])
      · have hafter : [stored, g.1].Sublist (earlier ++ stored :: later) :=
          List.sublist_append_of_sublist_right (.cons_cons _ (List.singleton_sublist.mpr hd))
        exact absurd hbefore (not_sublist_of_sublist hnodup hafter)
  refine ⟨hzero, List.mem_filter.mpr ⟨?_, by rw [hzero]; exact numEq_self rfl⟩⟩
  exact List.mem_filterMap.mpr ⟨g.1, hearlier, by rw [he, Option.map_some, ← hdistance]⟩

/-- **A document with the vector of the query is found behind those at distance zero that come before
it**, if they leave it a place and the threshold, if there is one, is not below zero. -/
theorem rank_self (hne : query ≠ []) (hfinite : query.isFinite = true)
    (hids : ((earlier ++ stored :: later).map (·.id)).Nodup)
    (hembedded : ∀ d ∈ earlier ++ stored :: later,
      ∃ e, d.embedding = some e ∧ e.length = query.length)
    (hstored : stored.embedding = some query)
    (hlimit : (matching metric query earlier).length < limit)
    (hthreshold : ∀ t, threshold = some t → zero.le t = true) :
    ∃ ahead behind, rank metric query limit threshold (earlier ++ stored :: later) =
        ahead ++ (stored, .zero) :: behind ∧
      ∀ g ∈ ahead, g ∈ matching metric query earlier := by
  have hself : hitOf metric query stored = (stored, zero) := by
    rw [hitOf_of_embedding hstored, metric.distance_self hfinite hne]
  have hperm := List.mergeSort_perm ((earlier ++ stored :: later).map (hitOf metric query)) nearer
  have hmem : (stored, zero) ∈
      ((earlier ++ stored :: later).map (hitOf metric query)).mergeSort nearer := by
    rw [hperm.mem_iff, ← hself]
    exact List.mem_map_of_mem (by simp)
  obtain ⟨ahead, behind, hsorted⟩ := List.append_of_mem hmem
  have hahead := mem_matching_of_ahead hne hids hembedded hsorted
  -- no two hits are of one document, so no more are ahead than match
  have hnodup : (ahead.map (·.1.id)).Nodup := by
    have hall : (((earlier ++ stored :: later).map (hitOf metric query)).mergeSort nearer
        |>.map (·.1.id)).Nodup := by
      rw [(hperm.map (·.1.id)).nodup_iff, List.map_map]
      exact hids
    rw [hsorted] at hall
    exact hall.sublist ((List.sublist_append_left ahead _).map _)
  have hlength : ahead.length ≤ (matching metric query earlier).length :=
    (List.Nodup.subperm (List.Nodup.of_map _ hnodup) fun g hg => (hahead g hg).2).length_le
  have hzero : ∀ g ∈ ahead ++ [(stored, zero)], within threshold g = true := by
    intro g hg
    have hg : g.2 = zero := by
      rcases List.mem_append.mp hg with hg | hg
      · exact (hahead g hg).1
      · rw [List.mem_singleton.mp hg]
    cases threshold with
    | none => rfl
    | some t =>
      show g.2.le t = true
      rw [hg]
      exact hthreshold t rfl
  have htake : (ahead ++ (stored, zero) :: behind).take limit =
      (ahead ++ [(stored, zero)]) ++ behind.take (limit - (ahead.length + 1)) := by
    rw [List.append_cons, List.take_append, List.take_of_length_le (by simp; omega),
      List.length_append, List.length_singleton]
  refine ⟨ahead, (behind.take (limit - (ahead.length + 1))).filter (within threshold), ?_,
    fun g hg => (hahead g hg).2⟩
  unfold rank
  rw [score_eq metric query fun d hd => (hembedded d hd).imp fun _ h => h.1, hsorted, htake,
    List.filter_append, List.filter_eq_self.mpr hzero, List.append_assoc, List.singleton_append]

end Ranking

end SemanticStore
