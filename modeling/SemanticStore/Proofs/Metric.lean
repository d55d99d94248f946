import SemanticStore.Metric
import SemanticStore.Proofs.Scalar.Value

/-!
# Facts about distances

A distance is never NaN (`Metric.isNaN_distance`). The distances of vectors of one length to a query
of that length have no sign bit, or are all minus zero: the Euclidean distance of vectors without
components is an empty sum. So plus and minus zero never meet in one ranking, and the total order of
bits is the numerical order there (`Metric.ranked_distance`).
-/

namespace SemanticStore

open Scalar

namespace Embedding

/-- A sum of terms without a sign bit has none, if there are terms. -/
theorem unsigned_sum {terms : List Scalar} (h : ∀ t ∈ terms, t.Unsigned) (hne : terms ≠ []) :
    (sum terms).Unsigned := by
  have hfold : ∀ (l : List Scalar) (acc : Scalar), (∀ t ∈ l, t.Unsigned) → acc.Unsigned →
      (l.foldl (· + ·) acc).Unsigned := by
    intro l
    induction l with
    | nil => exact fun acc _ hacc => hacc
    | cons t l ih =>
      intro acc hl hacc
      obtain ⟨ht, hl⟩ := List.forall_mem_cons.mp hl
      exact ih (acc + t) hl (unsigned_add hacc ht)
  obtain ⟨t, l, rfl⟩ := List.exists_cons_of_ne_nil hne
  obtain ⟨ht, hl⟩ := List.forall_mem_cons.mp h
  -- the sum starts at minus zero, which the first term replaces
  exact hfold l (negZero + t) hl (unsigned_negZero_add ht)

end Embedding

namespace Metric

variable {q a b : Embedding} {metric : Metric}

/-- What the arithmetic of a metric gives, which may be NaN. -/
def computed : Metric → Embedding → Embedding → Scalar
  | cosine => cosineDistance
  | euclidean => euclideanDistance

lemma distance_eq (metric : Metric) (q a : Embedding) : metric.distance q a =
    if (metric.computed q a).isNaN then infinity else metric.computed q a := by
  cases metric <;> rfl

/-- **A distance is a number.** -/
theorem isNaN_distance (metric : Metric) (q a : Embedding) :
    (metric.distance q a).isNaN = false := by
  rw [distance_eq]
  split
  · rfl
  · rename_i hn
    exact eq_false_of_ne_true hn

lemma unsigned_distance (h : (metric.computed q a).Unsigned) : (metric.distance q a).Unsigned := by
  rw [distance_eq]
  split
  · decide
  · exact h

theorem unsigned_cosineDistance (q a : Embedding) : (cosineDistance q a).Unsigned := by
  unfold cosineDistance
  dsimp only
  split
  · decide
  · split
    · decide
    · split
      · decide
      · rename_i hlt
        have hone : ∃ m e hm, Scalar.one.value = .finite .positive m e hm := by
          have hu : Scalar.one.Unsigned := by decide
          rw [hu.value_eq]
          exact ⟨2 ^ 23, -23, by decide, rfl⟩
        exact unsigned_sub hone (eq_false_of_ne_true hlt)

theorem unsigned_euclideanDistance (h : a.length = q.length) (hne : q ≠ []) :
    (euclideanDistance q a).Unsigned := by
  unfold euclideanDistance
  refine unsigned_sqrt (Embedding.unsigned_sum (fun t ht => ?_) fun hnil => ?_)
  · obtain ⟨i, hi, rfl⟩ := List.mem_iff_getElem.mp ht
    rw [List.getElem_zipWith]
    exact unsigned_mul_self _
  · have hlen : (q.zipWith (fun x y => (x - y) * (x - y)) a).length = q.length := by
      rw [List.length_zipWith, h, min_self]
    rw [hnil] at hlen
    exact hne (List.length_eq_zero_iff.mp hlen.symm)

/-- The Euclidean distance of vectors without components is minus zero. -/
lemma euclidean_distance_nil : distance euclidean [] [] = negZero := by
  have hroot : negZero.sqrt = negZero := by
    rw [sqrt_eq, value_negZero]
    rfl
  have hd : computed euclidean [] [] = negZero := hroot
  rw [distance_eq, hd]
  rfl

lemma ranked_negZero : Ranked negZero negZero := by
  unfold Ranked
  rw [value_negZero]
  rfl

/-- **Distances to one query compare numerically as their bits do.** -/
theorem ranked_distance (metric : Metric) (ha : a.length = q.length) (hb : b.length = q.length) :
    Ranked (metric.distance q a) (metric.distance q b) := by
  have hranked (hua : (metric.distance q a).Unsigned) (hub : (metric.distance q b).Unsigned) :=
    ranked_of_unsigned hua hub (isNaN_distance metric q a) (isNaN_distance metric q b)
  cases metric with
  | cosine =>
    exact hranked (unsigned_distance (unsigned_cosineDistance q a))
      (unsigned_distance (unsigned_cosineDistance q b))
  | euclidean =>
    by_cases hq : q = []
    · subst hq
      rw [List.length_eq_zero_iff.mp ha, List.length_eq_zero_iff.mp hb, euclidean_distance_nil]
      exact ranked_negZero
    · exact hranked (unsigned_distance (unsigned_euclideanDistance ha hq))
        (unsigned_distance (unsigned_euclideanDistance hb hq))

end Metric

end SemanticStore
