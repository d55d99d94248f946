import Mathlib.Data.List.Nodup
import Mathlib.Data.String.Basic
import SemanticStore.Embedder.Trigram

/-!
# Bags of words

`Trigram.Counted` says what the frequencies of words are: each word once, in ascending order, with
the number of its occurrences. There is only one such list for all orders of the words
(`Trigram.Counted.unique`), so an embedding depends on the bag of the words that count, to the last
bit, though single-precision sums depend on the order of their terms (`Trigram.embed_of_perm`).
-/

namespace SemanticStore.Trigram

/-! ### Counting -/

/-- Each of the words once, in ascending order, with the number of its occurrences. -/
structure Counted (words : List String) (counts : List (String × ℕ)) : Prop where
  ascending : counts.Pairwise fun p q => p.1 < q.1
  mem_iff : ∀ w n, (w, n) ∈ counts ↔ w ∈ words ∧ n = words.count w

namespace Counted

variable {words words' : List String} {counts counts' : List (String × ℕ)} {w : String} {n : ℕ}

lemma nodup (h : Counted words counts) : counts.Nodup := by
  refine h.ascending.imp fun {p q} hpq heq => ?_
  rw [heq] at hpq
  exact lt_irrefl _ hpq

/-- **Words are counted in one way only, whatever their order.** -/
theorem unique (h : Counted words counts) (h' : Counted words' counts')
    (hperm : words.Perm words') : counts = counts' := by
  have hcounts : counts.Perm counts' := by
    refine (List.perm_ext_iff_of_nodup h.nodup h'.nodup).mpr ?_
    rintro ⟨w, n⟩
    rw [h.mem_iff, h'.mem_iff, hperm.mem_iff, hperm.count_eq]
  refine hcounts.eq_of_pairwise (fun p q _ _ hpq hqp => ?_) h.ascending h'.ascending
  exact absurd hpq hqp.not_gt

lemma cons_new (h : Counted words counts) (hw : ∀ v ∈ words, w < v) :
    Counted (w :: words) ((w, 1) :: counts) := by
  have hnew : w ∉ words := fun hmem => lt_irrefl w (hw w hmem)
  refine ⟨List.pairwise_cons.mpr ⟨fun p hp => hw p.1 ((h.mem_iff p.1 p.2).mp hp).1, h.ascending⟩,
    fun v m => ?_⟩
  by_cases hv : v = w
  · subst hv
    have hm : (v, m) ∉ counts := fun hmem => hnew ((h.mem_iff v m).mp hmem).1
    simp [hm, List.count_eq_zero_of_not_mem hnew]
  · simp [hv, h.mem_iff, List.count_cons_of_ne (Ne.symm hv)]

lemma cons_again (h : Counted words ((w, n) :: counts)) :
    Counted (w :: words) ((w, n + 1) :: counts) := by
  obtain ⟨hmore, hascending⟩ := List.pairwise_cons.mp h.ascending
  obtain ⟨-, hn⟩ := (h.mem_iff w n).mp (List.mem_cons_self ..)
  refine ⟨List.pairwise_cons.mpr ⟨hmore, hascending⟩, fun v m => ?_⟩
  by_cases hv : v = w
  · subst hv
    have hm : (v, m) ∉ counts := fun hmem => lt_irrefl v (hmore _ hmem)
    simp [hm, hn]
  · have hiff := h.mem_iff v m
    simp only [List.mem_cons, Prod.mk.injEq, hv, false_and, false_or] at hiff
    simp [hv, hiff, List.count_cons_of_ne (Ne.symm hv)]

end Counted

/-- In a sorted list equal words stand together, so they are all counted. -/
theorem counted_tally {words : List String} (hsorted : words.Pairwise (· ≤ ·)) :
    Counted words (tally words) := by
  induction words with
  | nil => exact ⟨.nil, by simp [tally]⟩
  | cons w rest ih =>
    obtain ⟨hw, hrest⟩ := List.pairwise_cons.mp hsorted
    have hcounted := ih hrest
    unfold tally
    rcases htally : tally rest with _ | ⟨⟨w', n⟩, more⟩
    · rw [htally] at hcounted
      refine hcounted.cons_new fun v hv => ?_
      exact absurd ((hcounted.mem_iff v _).mpr ⟨hv, rfl⟩) List.not_mem_nil
    · rw [htally] at hcounted
      dsimp only
      split
      · rename_i heq
        subst heq
        exact hcounted.cons_again
      · rename_i hne
        refine hcounted.cons_new fun v hv => lt_of_le_of_ne (hw v hv) ?_
        rintro rfl
        -- the counts begin with the least word, which would be this one
        have hw' := ((hcounted.mem_iff w' n).mp (List.mem_cons_self ..)).1
        rcases List.mem_cons.mp ((hcounted.mem_iff w _).mpr ⟨hv, rfl⟩) with heq | hmem
        · exact hne (Prod.mk.inj heq).1
        · have hlt : w' < w := (List.pairwise_cons.mp hcounted.ascending).1 _ hmem
          exact absurd hlt (hw w' hw').not_gt

/-- **The frequencies of words are their counts.** -/
theorem counted_frequencies (words : List String) : Counted words (frequencies words) := by
  have hperm : (words.mergeSort fun a b => ¬ b < a).Perm words := List.mergeSort_perm ..
  have hsorted : (words.mergeSort fun a b => ¬ b < a).Pairwise (· ≤ ·) := by
    refine (List.pairwise_mergeSort (fun a b c hab hbc => ?_) (fun a b => ?_) words).imp fun h => ?_
    · rw [decide_eq_true_eq, not_lt] at *
      exact hab.trans hbc
    · rw [Bool.or_eq_true, decide_eq_true_eq, decide_eq_true_eq, not_lt, not_lt]
      exact le_total a b
    · rwa [decide_eq_true_eq, not_lt] at h
  have htally : Counted _ (frequencies words) := counted_tally hsorted
  exact ⟨htally.ascending, fun w n => by rw [htally.mem_iff, hperm.mem_iff, hperm.count_eq]⟩

/-! ### Components -/

lemma length_accumulate (dimensions : ℕ) (parts : List (UInt64 × Scalar)) :
    (accumulate dimensions parts).length = dimensions := by
  have hsize : ∀ v : Array Scalar, (parts.foldl (fun v p =>
      v.modify (p.1.toNat % dimensions) (· + p.2)) v).size = v.size := by
    induction parts with
    | nil => exact fun _ => rfl
    | cons p parts ih => exact fun v => (ih _).trans Array.size_modify
  simp [accumulate, hsize]

@[simp] theorem length_embed (dimensions : ℕ) (normalized : Bool) (text : String) :
    (embed dimensions normalized text).length = dimensions := by
  unfold embed
  dsimp only
  split
  · rw [Embedding.length_normalize, length_accumulate]
  · rw [length_accumulate]

/-- **Texts with the same bag of words that count have the same embedding, bit for bit.** Every
embedding has the dimensions it is meant to have, and whatever has been added already, the next
contribution falls on one of its components. -/
theorem embed_of_perm (dimensions : ℕ) (normalized : Bool) :
    (∀ s t : String, (wordsOf s).Perm (wordsOf t) →
      embed dimensions normalized s = embed dimensions normalized t) ∧
    (∀ text, (embed dimensions normalized text).length = dimensions) ∧
    ∀ (parts : List (UInt64 × Scalar)) (h : UInt64), 0 < dimensions →
      h.toNat % dimensions < (accumulate dimensions parts).length := by
  refine ⟨fun s t hperm => ?_, length_embed dimensions normalized, fun parts h hpos => ?_⟩
  · have hfrequencies : frequencies (wordsOf s) = frequencies (wordsOf t) :=
      (counted_frequencies _).unique (counted_frequencies _) hperm
    unfold embed
    rw [hfrequencies]
  · rw [length_accumulate]
    exact Nat.mod_lt _ hpos

/-- Order, case, white space, stop words and short words make no difference; `né` counts with its
three bytes, though it is too short for a trigram. -/
theorem embed_of_perm_scrambled :
    (wordsOf "A né jumps over the né").Perm (wordsOf "Né  né\tOVER is at jumps") ∧
      embed 7 true "A né jumps over the né" = embed 7 true "Né  né\tOVER is at jumps" ∧
      (embed 7 true "A né jumps over the né").length = 7 ∧
      (hash 31 "né").toNat % 7 < (accumulate 7 (contributions "né" 2)).length := by
  have hperm : (wordsOf "A né jumps over the né").Perm (wordsOf "Né  né\tOVER is at jumps") := by
    decide +kernel
  obtain ⟨hembed, hlength, hindex⟩ := embed_of_perm 7 true
  exact ⟨hperm, hembed _ _ hperm, hlength _, hindex _ _ (by decide)⟩

end SemanticStore.Trigram
