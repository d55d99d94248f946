import SemanticStore.Proofs.NonFinite
import SemanticStore.Proofs.Scalar.Order

/-!
# Limits and thresholds

A ranking grows at its end when its limit or its threshold does, and a smaller threshold takes out
just the hits that are too far away (`Ranking.rank_monotone`). Nothing is assumed of the documents:
embeddings may be missing, of any length, or not finite.

The sort goes by the total order of bit patterns and the threshold by the numerical order. The two
agree where it matters, because distances are never NaN: what stands first in the sorted hits is
numerically no farther away than what follows (`Ranking.pairwise_le`).
-/

namespace SemanticStore

/-- Where whatever passes has only such elements in front of it, the elements that pass are the
first ones. -/
lemma filter_prefix_of_pairwise {α : Type} {p : α → Bool} {l : List α}
    (h : l.Pairwise fun a b => p b = true → p a = true) : l.filter p <+: l := by
  induction l with
  | nil => exact List.prefix_refl _
  | cons a l ih =>
    obtain ⟨ha, hl⟩ := List.pairwise_cons.mp h
    cases hpa : p a with
    | true =>
      rw [List.filter_cons_of_pos hpa]
      exact (List.prefix_cons_inj a).mpr (ih hl)
    | false =>
      have hnone : (a :: l).filter p = [] := by
        refine List.filter_eq_nil_iff.mpr fun b hb hpb => ?_
        rcases List.mem_cons.mp hb with rfl | hb
        · rw [hpa] at hpb
          cases hpb
        · rw [ha b hb hpb] at hpa
          cases hpa
      rw [hnone]
      exact List.nil_prefix

namespace Ranking

variable {metric : Metric} {query : Embedding} {limit : ℕ} {threshold t t' : Option Scalar}
  {documents : List Document} {g h : Hit}

/-! ### Thresholds -/

/-- The order of thresholds, of which having none is the largest. -/
def AtMost : Option Scalar → Option Scalar → Prop
  | _, none => True
  | none, some _ => False
  | some a, some b => a.le b = true

lemma within_of_atMost (ht : AtMost t t') (hh : within t h = true) : within t' h = true := by
  cases t' with
  | none => rfl
  | some b =>
    cases t with
    | none => exact ht.elim
    | some a => exact Scalar.le_trans hh ht

/-- What is no farther away than a hit that passes the threshold passes it. -/
lemma within_of_le (hgh : g.2.le h.2 = true) (hh : within threshold h = true) :
    within threshold g = true := by
  cases threshold with
  | none => rfl
  | some t => exact Scalar.le_trans hgh hh

/-! ### Rankings -/

lemma rank_eq_filter (metric : Metric) (query : Embedding) (limit : ℕ) (threshold : Option Scalar)
    (documents : List Document) : rank metric query limit threshold documents =
      (rank metric query limit none documents).filter (within threshold) := by
  rw [rank_none]
  rfl

/-- **What stands first in a ranking is numerically no farther away than what follows.** -/
theorem pairwise_le (metric : Metric) (query : Embedding) (limit : ℕ) (threshold : Option Scalar)
    (documents : List Document) :
    (rank metric query limit threshold documents).Pairwise fun g h => g.2.le h.2 = true := by
  have hsorted := (List.pairwise_mergeSort nearer_trans nearer_total
    (score metric query documents)).sublist (sublist_rank metric query limit threshold documents)
  refine hsorted.imp_of_mem fun {g h} hg hh hgh => ?_
  obtain ⟨e, -, hdistance⟩ := exists_of_mem_rank hg
  obtain ⟨e', -, hdistance'⟩ := exists_of_mem_rank hh
  exact Scalar.le_of_rank_le (hdistance ▸ metric.isNaN_distance query e)
    (hdistance' ▸ metric.isNaN_distance query e') (of_decide_eq_true hgh)

/-- A larger limit only lets more hits follow. -/
lemma rank_prefix_of_le {n m : ℕ} (hnm : n ≤ m) :
    rank metric query n threshold documents <+: rank metric query m threshold documents :=
  (List.take_prefix_take_left hnm).filter _

lemma rank_eq_filter_of_atMost (ht : AtMost t t') : rank metric query limit t documents =
    (rank metric query limit t' documents).filter (within t) := by
  rw [rank_eq_filter metric query limit t, rank_eq_filter metric query limit t', List.filter_filter]
  refine List.filter_congr fun h _ => ?_
  cases hh : within t h with
  | false => rfl
  | true => rw [within_of_atMost ht hh]; rfl

lemma rank_prefix_of_atMost (ht : AtMost t t') :
    rank metric query limit t documents <+: rank metric query limit t' documents := by
  rw [rank_eq_filter_of_atMost ht]
  refine filter_prefix_of_pairwise ?_
  exact (pairwise_le metric query limit t' documents).imp within_of_le

lemma rank_of_isNaN {x : Scalar} (hx : x.isNaN = true) :
    rank metric query limit (some x) documents = [] := by
  refine List.filter_eq_nil_iff.mpr fun h _ hh => ?_
  rw [(Scalar.isNaN_eq_false_of_le hh).2] at hx
  cases hx

/-- **A ranking is a first part of every ranking with a larger limit or a larger threshold.** Of the
latter it has just the hits that pass the smaller threshold, and a threshold that is no number lets
none pass. -/
theorem rank_monotone (metric : Metric) (query : Embedding) (documents : List Document) :
    (∀ n m t, n ≤ m → rank metric query n t documents <+: rank metric query m t documents) ∧
    (∀ n t t', AtMost t t' →
      rank metric query n t documents <+: rank metric query n t' documents ∧
      rank metric query n t documents = (rank metric query n t' documents).filter (within t)) ∧
    ∀ n (x : Scalar), x.isNaN = true → rank metric query n (some x) documents = [] :=
  ⟨fun _ _ _ hnm => rank_prefix_of_le hnm,
    fun _ _ _ ht => ⟨rank_prefix_of_atMost ht, rank_eq_filter_of_atMost ht⟩,
    fun _ _ hx => rank_of_isNaN hx⟩

/-- A pack of which one has an embedding without components, at distance minus zero from any other,
one none at all, and one an embedding that is not finite. They are listed as they rank. -/
def motley : List Document :=
  [⟨"1", "a puppy", none, some []⟩, ⟨"2", "a hound", none, some [.one, .zero]⟩,
    ⟨"3", "a wolf", none, none⟩, ⟨"4", "a jackal", none, some [.zero, .one]⟩,
    ⟨"5", "a fox", none, some [.one, .nan]⟩]

/-- Plus zero passes the threshold minus zero, though it is sorted behind minus zero. -/
theorem rank_monotone_motley :
    rank .euclidean [.one, .zero] 1 (some .negZero) motley <+:
        rank .euclidean [.one, .zero] 3 (some .negZero) motley ∧
      (rank .euclidean [.one, .zero] 3 (some .negZero) motley).map (·.1.id) = ["1", "2"] ∧
      rank .euclidean [.one, .zero] 3 (some .negZero) motley =
        (rank .euclidean [.one, .zero] 3 (some .infinity) motley).filter (within (some .negZero)) ∧
      rank .euclidean [.one, .zero] 3 (some .infinity) motley <+:
        rank .euclidean [.one, .zero] 3 none motley ∧
      rank .euclidean [.one, .zero] 3 (some .nan) motley = [] := by
  obtain ⟨hlimits, hthresholds, hnan⟩ := rank_monotone .euclidean [.one, .zero] motley
  have hle : AtMost (some .negZero) (some .infinity) := by
    show Scalar.le _ _ = true
    decide +kernel
  have hnone : AtMost (some .infinity) none := trivial
  have hsorted : (score .euclidean [.one, .zero] motley).mergeSort nearer =
      score .euclidean [.one, .zero] motley := List.mergeSort_of_pairwise (by decide +kernel)
  refine ⟨hlimits 1 3 _ (by decide), ?_, (hthresholds 3 _ _ hle).2, (hthresholds 3 _ _ hnone).1,
    hnan 3 _ (by decide)⟩
  unfold rank
  rw [hsorted]
  decide +kernel

end Ranking

end SemanticStore
