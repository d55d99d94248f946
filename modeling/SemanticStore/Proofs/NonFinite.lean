import SemanticStore.Proofs.Ranking
import SemanticStore.Proofs.Scalar.Special

/-!
# Vectors that are not finite

One infinite or NaN component makes the norm of a vector special, and so every inner product with it.
The arithmetic of a distance then gives infinity or NaN, so the distance is infinite, unless cosine
has settled it before it divides (`Metric.shortcut?`): equal vectors are at distance zero, and a
vector whose norm is zero in single precision is at distance one from all others.
-/

namespace SemanticStore

open Scalar

/-! ### Sums and norms -/

namespace Embedding

variable {a b : Embedding}

/-- A component is infinite or NaN. -/
def Special (a : Embedding) : Prop := ∃ x ∈ a, Single.Special x.value

@[simp] lemma special_nil : ¬ Special ([] : Embedding) := by simp [Special]

@[simp] lemma special_cons {x : Scalar} :
    Special (x :: a) ↔ Single.Special x.value ∨ a.Special := by simp [Special]

lemma isFinite_eq_false_iff : a.isFinite = false ↔ a.Special := by
  simp [isFinite, Special, Scalar.isFinite_eq_false_iff]

theorem special_zipWith {f : Scalar → Scalar → Scalar}
    (hf : ∀ x y, Single.Special x.value ∨ Single.Special y.value → Single.Special (f x y).value) :
    ∀ {a b : Embedding}, a.length = b.length → a.Special ∨ b.Special → Special (a.zipWith f b)
  | [], [], _, h => by simp at h
  | x :: a, y :: b, hlength, h => by
    rw [special_cons, special_cons] at h
    rw [List.zipWith_cons_cons, special_cons]
    have hrest := special_zipWith hf (a := a) (b := b) (by simpa using hlength)
    have hhead := hf x y
    tauto

theorem special_sum {terms : List Scalar} (h : Special terms) :
    Single.Special (sum terms).value := by
  have hfold : ∀ (l : List Scalar) (acc : Scalar), Single.Special acc.value ∨ Special l →
      Single.Special (l.foldl (· + ·) acc).value := by
    intro l
    induction l with
    | nil => simp
    | cons t l ih =>
      intro acc h
      rw [special_cons, ← or_assoc] at h
      exact ih (acc + t) (h.imp special_value_add id)
  exact hfold terms negZero (.inr h)

theorem special_dot (hlength : a.length = b.length) (h : a.Special ∨ b.Special) :
    Single.Special (a.dot b).value :=
  special_sum (special_zipWith (fun _ _ => special_value_mul) hlength h)

theorem special_norm (h : a.Special) : Single.Special a.norm.value := by
  obtain ⟨x, hx, hs⟩ := h
  have hsquare : Single.Special (x * x).value := special_value_mul (.inl hs)
  exact special_value_sqrt (special_sum ⟨x * x, List.mem_map_of_mem hx, hsquare⟩)

end Embedding

/-! ### Distances -/

namespace Metric

variable {q e : Embedding}

/-- A distance that is settled before any division. -/
def shortcut? : Metric → Embedding → Embedding → Option Scalar
  | cosine, a, b =>
      if sameComponents a b then some .zero
      else if a.norm.numEq .zero || b.norm.numEq .zero then some .one
      else none
  | euclidean, _, _ => none

lemma cosineDistance_of_special (hlength : q.length = e.length) (h : q.Special ∨ e.Special) :
    cosineDistance q e = (shortcut? cosine q e).getD .nan := by
  unfold cosineDistance cosineSimilarity shortcut?
  dsimp only
  split
  · rfl
  · split
    · decide +kernel
    · have hnorms : Single.Special (q.norm * e.norm).value :=
        special_value_mul (h.imp Embedding.special_norm Embedding.special_norm)
      rw [isNaN_div (Embedding.special_dot hlength h) hnorms]
      rfl

lemma cosine_distance_of_special (hlength : q.length = e.length) (h : q.Special ∨ e.Special) :
    cosine.distance q e = (shortcut? cosine q e).getD .infinity := by
  have hcomputed : computed cosine q e = (shortcut? cosine q e).getD .nan :=
    cosineDistance_of_special hlength h
  rw [distance_eq, hcomputed]
  unfold shortcut?
  dsimp only
  split
  · rfl
  · split
    · rfl
    · rfl

lemma euclidean_distance_of_special (hlength : q.length = e.length) (h : q.Special ∨ e.Special) :
    euclidean.distance q e = .infinity := by
  have hspecial : Single.Special (euclideanDistance q e).value := by
    refine special_value_sqrt (Embedding.special_sum (Embedding.special_zipWith ?_ hlength h))
    intro x y hxy
    exact special_value_mul (.inl (special_value_sub hxy))
  have hne : q ≠ [] := by
    rintro rfl
    obtain rfl : e = [] := List.length_eq_zero_iff.mp hlength.symm
    simp at h
  have hu := unsigned_euclideanDistance hlength.symm hne
  rw [distance_eq]
  split
  · rfl
  · rename_i hn
    exact hu.eq_infinity (eq_false_of_ne_true hn) (.inl hspecial)

theorem distance_of_special (metric : Metric) (hlength : q.length = e.length)
    (h : q.Special ∨ e.Special) :
    metric.distance q e = (metric.shortcut? q e).getD .infinity := by
  cases metric with
  | cosine => exact cosine_distance_of_special hlength h
  | euclidean => exact euclidean_distance_of_special hlength h

/-- Two small components have a norm of zero in single precision, and cosine takes a vector of norm
zero to be at distance one, though the other vector is infinite. -/
theorem cosine_distance_faint :
    Embedding.isFinite [.infinity, .one] = false ∧
      cosine.distance [.infinity, .one] [⟨0x0da24260⟩, ⟨0x0da24260⟩] ≠ .infinity := by
  decide +kernel

end Metric

/-! ### Rankings -/

namespace Ranking

variable {metric : Metric} {query e : Embedding} {limit : ℕ} {threshold : Option Scalar}
  {documents : List Document} {d : Document} {x : Scalar}

lemma sublist_rank (metric : Metric) (query : Embedding) (limit : ℕ) (threshold : Option Scalar)
    (documents : List Document) : (rank metric query limit threshold documents).Sublist
      ((score metric query documents).mergeSort nearer) :=
  List.filter_sublist.trans (List.take_sublist ..)

lemma exists_of_mem_rank {h : Hit} (hh : h ∈ rank metric query limit threshold documents) :
    ∃ e, h.1.embedding = some e ∧ h.2 = metric.distance query e := by
  have hscore := (sublist_rank metric query limit threshold documents).subset hh
  rw [List.mem_mergeSort] at hscore
  obtain ⟨d, -, hd⟩ := List.mem_filterMap.mp hscore
  obtain ⟨e, he, rfl⟩ := Option.map_eq_some_iff.mp hd
  exact ⟨e, he, rfl⟩

/-- Behind a hit at infinite distance all hits are. -/
theorem infinity_of_behind {ahead behind : List Hit}
    (hrank : rank metric query limit threshold documents = ahead ++ (d, .infinity) :: behind) :
    ∀ h ∈ behind, h.2 = .infinity := by
  intro h hh
  have hsorted := (List.pairwise_mergeSort nearer_trans nearer_total
    (score metric query documents)).sublist (sublist_rank metric query limit threshold documents)
  have hmem : h ∈ rank metric query limit threshold documents := by
    rw [hrank]
    simp [hh]
  obtain ⟨e, -, hdistance⟩ := exists_of_mem_rank hmem
  rw [hrank, List.pairwise_append, List.pairwise_cons] at hsorted
  have hle : infinity.rank ≤ h.2.rank := of_decide_eq_true (hsorted.2.1.1 h hh)
  exact eq_infinity_of_rank_le (hdistance ▸ Metric.isNaN_distance metric query e) hle

theorem not_mem_of_threshold {t : Scalar} (ht : t.isFinite = true) :
    (d, .infinity) ∉ rank metric query limit (some t) documents := by
  intro hmem
  have hwithin : infinity.le t = true := (List.mem_filter.mp hmem).2
  rw [infinity_le_eq_false ht] at hwithin
  cases hwithin

/-- **Vectors of one length, of which at least one is not finite, are infinitely far apart unless a
shortcut has settled their distance**, which only happens by cosine.

A document that is infinitely far away for this reason has only such documents behind it, and no
finite threshold lets it pass. -/
theorem distance_of_not_finite (metric : Metric) (hlength : query.length = e.length)
    (hnot : query.isFinite = false ∨ e.isFinite = false) :
    metric.distance query e = (metric.shortcut? query e).getD .infinity ∧
    (metric.shortcut? query e = none → ∀ (documents : List Document) (limit : ℕ) (d : Document)
      (x : Scalar), d.embedding = some e →
      (∀ threshold ahead behind,
        rank metric query limit threshold documents = ahead ++ (d, x) :: behind →
          ∀ h ∈ behind, h.2 = .infinity) ∧
      ∀ t, t.isFinite = true → (d, x) ∉ rank metric query limit (some t) documents) := by
  rw [Embedding.isFinite_eq_false_iff, Embedding.isFinite_eq_false_iff] at hnot
  have hdistance := Metric.distance_of_special metric hlength hnot
  refine ⟨hdistance, fun hnone documents limit d x he => ?_⟩
  rw [hnone, Option.getD_none] at hdistance
  -- wherever the document is listed, its distance is infinite
  have hx (t : Option Scalar) (hmem : (d, x) ∈ rank metric query limit t documents) :
      x = .infinity := by
    obtain ⟨e', he', hx⟩ := exists_of_mem_rank hmem
    obtain rfl : e = e' := Option.some.inj (he.symm.trans he')
    exact hx.trans hdistance
  constructor
  · intro threshold ahead behind hrank
    obtain rfl := hx threshold (by simp [hrank])
    exact infinity_of_behind hrank
  · intro t ht hmem
    obtain rfl := hx (some t) hmem
    exact not_mem_of_threshold ht hmem

/-- A document with a NaN component is far from a unit vector, and a threshold takes it out. -/
theorem distance_of_not_finite_nan :
    Metric.cosine.distance [.one, .one] [.one, .nan] = .infinity ∧
      (⟨"1", "a fox", none, some [.one, .nan]⟩, .infinity) ∉
        rank .cosine [.one, .one] 10 (some .one)
          [⟨"1", "a fox", none, some [.one, .nan]⟩, ⟨"2", "a wolf", none, some [.one, .zero]⟩] := by
  have hnan : Embedding.isFinite [.one, .nan] = false := by decide
  have hlength : ([.one, .one] : Embedding).length = ([.one, .nan] : Embedding).length := rfl
  obtain ⟨hdistance, hranked⟩ := distance_of_not_finite .cosine hlength (.inr hnan)
  have hnone : Metric.cosine.shortcut? [.one, .one] [.one, .nan] = none := by decide +kernel
  rw [hnone] at hdistance
  exact ⟨hdistance, (hranked hnone _ 10 _ .infinity rfl).2 .one (by decide)⟩

end Ranking

end SemanticStore
