import SemanticStore.Proofs.Scalar.Order
import SemanticStore.Proofs.SelfDistance

/-!
# Laws of distances

Exchanging the factors of a product leaves every bit of it as it is. Exchanging the terms of a
difference changes at most its sign (`Single.sub_swap`), which its square does not show. A distance is
made of such products and squares, added in the order of the components, so it is symmetric to the last
bit (`Metric.distance_comm`). It is a number that is not below zero, whatever the vectors hold, and a
finite vector is at distance zero from itself (`Metric.distance_laws`).
-/

namespace SemanticStore

open Float.Model (Format UnpackedFloat)

/-! ### Numbers the other way round -/

namespace Single

open Float.Model.UnpackedFloat (Sign Accuracy roundWithAccuracy)

lemma sign_mul_comm (s t : Sign) : s * t = t * s := by cases s <;> cases t <;> rfl

lemma mul_comm (f g : UnpackedFloat) :
    UnpackedFloat.mul Format.binary32 f g = UnpackedFloat.mul Format.binary32 g f := by
  cases f <;> cases g <;>
    simp only [UnpackedFloat.mul, sign_mul_comm, Nat.mul_comm, Int.add_comm]

lemma mul_neg_neg (f g : UnpackedFloat) :
    UnpackedFloat.mul Format.binary32 f.neg g.neg = UnpackedFloat.mul Format.binary32 f g := by
  have hsign : ∀ s t : Sign, -s * -t = s * t := by
    intro s t
    cases s <;> cases t <;> rfl
  cases f <;> cases g <;> simp only [UnpackedFloat.neg, UnpackedFloat.mul, hsign]

lemma compare_swap (f g : UnpackedFloat) : g.compare f = (f.compare g).map Ordering.swap := by
  cases f with
  | notANumber => cases g <;> rfl
  | infinity s =>
    cases g with
    | infinity t => cases s <;> cases t <;> rfl
    | _ => cases s <;> rfl
  | zero s =>
    cases g with
    | infinity t => cases t <;> rfl
    | finite t m e hm => cases t <;> rfl
    | _ => rfl
  | finite s m e hm =>
    cases g with
    | notANumber => rfl
    | infinity t => cases t <;> rfl
    | zero t => cases s <;> rfl
    | finite t m' e' hm' =>
      have hswap : (compare e' e).then (compare m' m) =
          ((compare e e').then (compare m m')).swap := by
        rw [Ordering.swap_then, Int.compare_swap, Nat.compare_swap]
      cases s <;> cases t
      case negative.positive => rfl
      case positive.negative => rfl
      case positive.positive => exact congrArg some hswap
      case negative.negative => exact congrArg (some ·.swap) hswap

/-! A difference is rounded in the same way whatever its sign. -/

lemma neg_roundWithAccuracy (s : Sign) (m : ℕ) (e : ℤ) (acc : Accuracy) :
    (roundWithAccuracy Format.binary32 s m e acc).neg =
      roundWithAccuracy Format.binary32 (-s) m e acc := by
  unfold roundWithAccuracy
  dsimp only
  split <;> rfl

lemma neg_normalize {d : ℤ} (hd : d ≠ 0) (e : ℤ) (s : Sign) :
    (UnpackedFloat.normalize Format.binary32 d e s).neg =
      UnpackedFloat.normalize Format.binary32 (-d) e s := by
  unfold UnpackedFloat.normalize
  rcases lt_or_gt_of_ne hd with h | h
  · have hneg : compare (-d) 0 = .gt := Int.compare_eq_gt.mpr (by omega)
    rw [Int.compare_eq_lt.mpr h, hneg]
    exact neg_roundWithAccuracy ..
  · have hneg : compare (-d) 0 = .lt := Int.compare_eq_lt.mpr (by omega)
    rw [Int.compare_eq_gt.mpr h, hneg, neg_neg]
    exact neg_roundWithAccuracy ..

/-- **Exchanging the terms of a difference changes at most its sign.** -/
theorem sub_swap (f g : UnpackedFloat) :
    UnpackedFloat.sub Format.binary32 g f = UnpackedFloat.sub Format.binary32 f g ∨
      UnpackedFloat.sub Format.binary32 g f = (UnpackedFloat.sub Format.binary32 f g).neg := by
  cases f with
  | notANumber => cases g <;> exact .inl rfl
  | infinity s =>
    cases g with
    | notANumber => exact .inl rfl
    | infinity t => cases s <;> cases t <;> first | exact .inl rfl | exact .inr rfl
    | _ => exact .inr rfl
  | zero s =>
    cases g with
    | notANumber => exact .inl rfl
    | infinity t => cases t <;> exact .inr rfl
    | zero t => cases s <;> cases t <;> first | exact .inl rfl | exact .inr rfl
    | finite t m e hm => cases t <;> exact .inr rfl
  | finite s m e hm =>
    cases g with
    | notANumber => exact .inl rfl
    | infinity t => cases t <;> exact .inr rfl
    | zero t => exact .inr rfl
    | finite t m' e' hm' =>
      have hsub : ∀ (s t : Sign) (m m' : ℕ) (e e' : ℤ) (hm : 0 < m) (hm' : 0 < m'),
          UnpackedFloat.sub Format.binary32 (.finite s m e hm) (.finite t m' e' hm') =
            UnpackedFloat.normalize Format.binary32 (s.apply (m <<< (e - min e e').toNat : ℕ) -
              t.apply (m' <<< (e' - min e e').toNat : ℕ)) (min e e') .positive :=
        fun _ _ _ _ _ _ _ _ => rfl
      rw [hsub, hsub, min_comm e' e]
      generalize s.apply (m <<< (e - min e e').toNat : ℕ) = x
      generalize t.apply (m' <<< (e' - min e e').toNat : ℕ) = y
      -- only a difference of zero has no sign to change
      rcases eq_or_ne x y with rfl | hne
      · exact .inl rfl
      · rw [neg_normalize (sub_ne_zero.mpr hne), neg_sub]
        exact .inr rfl

/-! The sign of a number is one bit of its word. -/

lemma unpack_packComponents_neg (s : Sign) (e : BitVec 8) (m : BitVec 23) :
    UnpackedFloat.unpack Format.binary32
        (UnpackedFloat.packComponents Format.binary32 (-s) e m) =
      (UnpackedFloat.unpack Format.binary32
        (UnpackedFloat.packComponents Format.binary32 s e m)).neg := by
  rw [unpack_packComponents, unpack_packComponents, neg_ofParts]

lemma unpack_pack_neg (f : UnpackedFloat) :
    UnpackedFloat.unpack Format.binary32 (UnpackedFloat.pack Format.binary32 f.neg) =
      (UnpackedFloat.unpack Format.binary32 (UnpackedFloat.pack Format.binary32 f)).neg := by
  cases f with
  | notANumber =>
    have hnan : UnpackedFloat.unpack Format.binary32
        (UnpackedFloat.pack Format.binary32 .notANumber) = .notANumber :=
      unpack_pack (f := .notANumber) trivial trivial
    show UnpackedFloat.unpack _ (UnpackedFloat.pack _ .notANumber) = _
    rw [hnan]
    rfl
  | infinity s => exact unpack_packComponents_neg ..
  | zero s => exact unpack_packComponents_neg ..
  | finite s m e hm =>
    show UnpackedFloat.unpack _ (UnpackedFloat.pack _ (.finite (-s) m e hm)) = _
    unfold UnpackedFloat.pack
    dsimp only
    split_ifs
    · exact unpack_packComponents_neg ..
    · exact unpack_packComponents_neg ..
    · exact unpack_packComponents_neg ..

end Single

/-! ### Scalars the other way round -/

namespace Scalar

open Single

lemma mul_comm (x y : Scalar) : x * y = y * x := by
  rw [mul_eq, mul_eq, Single.mul_comm]

lemma numEq_comm (x y : Scalar) : x.numEq y = y.numEq x := by
  rw [numEq_eq, numEq_eq, compare_swap x.value y.value]
  cases x.value.compare y.value with
  | none => rfl
  | some o => cases o <;> rfl

lemma value_sub_swap (x y : Scalar) :
    (y - x).value = (x - y).value ∨ (y - x).value = (x - y).value.neg := by
  rw [sub_eq, sub_eq]
  rcases sub_swap x.value y.value with h | h
  · exact .inl (congrArg (value ∘ pack) h)
  · rw [h]
    exact .inr (unpack_pack_neg _)

theorem sq_sub_comm (x y : Scalar) : (x - y) * (x - y) = (y - x) * (y - x) := by
  rw [mul_eq, mul_eq]
  rcases value_sub_swap x y with h | h
  · rw [h]
  · rw [h, mul_neg_neg]

lemma Unsigned.lt_zero_eq_false {x : Scalar} (hu : x.Unsigned) (hn : x.isNaN = false) :
    x.lt zero = false := by
  have hzero : zero.bits.toNat = 0 := rfl
  rw [lt_eq, compare_value hu (by decide) hn (by decide), hzero]
  refine eq_false_of_ne_true fun h => ?_
  have hlt := Nat.compare_eq_lt.mp (Option.some.inj (eq_of_beq h))
  omega

lemma negZero_lt_zero : negZero.lt zero = false := by
  rw [lt_eq, value_negZero, value_zero]
  rfl

lemma negZero_numEq_zero : negZero.numEq zero = true := by
  rw [numEq_eq, value_negZero, value_zero]
  rfl

end Scalar

/-! ### Distances -/

lemma Embedding.dot_comm (a b : Embedding) : a.dot b = b.dot a :=
  congrArg sum (List.zipWith_comm_of_comm Scalar.mul_comm)

namespace Metric

open Scalar

variable {metric : Metric} {a b : Embedding}

lemma sameComponents_comm (a b : Embedding) : sameComponents a b = sameComponents b a := by
  induction a generalizing b with
  | nil => cases b <;> rfl
  | cons x a ih =>
    cases b with
    | nil => rfl
    | cons y b => rw [sameComponents, sameComponents, numEq_comm, ih]

lemma cosineSimilarity_comm (a b : Embedding) : cosineSimilarity a b = cosineSimilarity b a := by
  unfold cosineSimilarity
  rw [Bool.or_comm, Embedding.dot_comm, Scalar.mul_comm]

lemma euclideanDistance_comm (a b : Embedding) :
    euclideanDistance a b = euclideanDistance b a := by
  unfold euclideanDistance
  rw [List.zipWith_comm]
  simp only [sq_sub_comm]

/-- **A distance is the same from either side**, in every bit. -/
theorem distance_comm (metric : Metric) (a b : Embedding) :
    metric.distance a b = metric.distance b a := by
  have hcomputed : metric.computed a b = metric.computed b a := by
    cases metric with
    | cosine =>
      show cosineDistance a b = cosineDistance b a
      unfold cosineDistance
      rw [sameComponents_comm, cosineSimilarity_comm]
    | euclidean => exact euclideanDistance_comm a b
  rw [distance_eq, distance_eq, hcomputed]

/-- A distance has no sign bit, unless it is the root of an empty sum. -/
lemma unsigned_or_eq_negZero (metric : Metric) (a b : Embedding) :
    (metric.distance a b).Unsigned ∨ metric.distance a b = negZero := by
  cases metric with
  | cosine => exact .inl (unsigned_distance (unsigned_cosineDistance a b))
  | euclidean =>
    rcases eq_or_ne (a.zipWith (fun x y => (x - y) * (x - y)) b) [] with hnil | hne
    · have hcomputed : computed euclidean a b = computed euclidean [] [] := by
        show euclideanDistance a b = euclideanDistance [] []
        unfold euclideanDistance
        rw [hnil]
        rfl
      right
      rw [distance_eq, hcomputed, ← distance_eq, euclidean_distance_nil]
    · refine .inl (unsigned_distance (unsigned_sqrt (Embedding.unsigned_sum (fun t ht => ?_) hne)))
      obtain ⟨i, hi, rfl⟩ := List.mem_iff_getElem.mp ht
      rw [List.getElem_zipWith]
      exact unsigned_mul_self _

/-- **A distance is not below zero.** -/
theorem distance_lt_zero (metric : Metric) (a b : Embedding) :
    (metric.distance a b).lt zero = false := by
  rcases unsigned_or_eq_negZero metric a b with hu | hzero
  · exact hu.lt_zero_eq_false (isNaN_distance metric a b)
  · rw [hzero]
    exact negZero_lt_zero

/-- A finite vector is at distance zero from itself, also if it has no components. -/
lemma distance_self_numEq (metric : Metric) (h : a.isFinite = true) :
    (metric.distance a a).numEq zero = true := by
  rcases eq_or_ne a [] with rfl | hne
  · cases metric with
    | cosine => exact numEq_self rfl
    | euclidean =>
      rw [euclidean_distance_nil]
      exact negZero_numEq_zero
  · rw [metric.distance_self h hne]
    exact numEq_self rfl

/-- **The distance of any two vectors is a number, is not below zero and is the same from either
side; that of a finite vector to itself is zero.** -/
theorem distance_laws (metric : Metric) (a b : Embedding) :
    (metric.distance a b).isNaN = false ∧
      (metric.distance a b).lt zero = false ∧
      metric.distance a b = metric.distance b a ∧
      (a.isFinite = true → (metric.distance a a).numEq zero = true) :=
  ⟨isNaN_distance metric a b, distance_lt_zero metric a b, distance_comm metric a b,
    distance_self_numEq metric⟩

/-- A finite vector whose norm overflows, and one with a NaN. -/
theorem distance_laws_overflow :
    let a : Embedding := [⟨0x7f7fffff⟩, ⟨0xff7fffff⟩]
    let b : Embedding := [.nan, .negInfinity]
    a.isFinite = true ∧ a.norm = infinity ∧ (cosine.distance a a).numEq zero = true ∧
      (euclidean.distance a b).lt zero = false ∧
      euclidean.distance a b = euclidean.distance b a := by
  intro a b
  have hfinite : a.isFinite = true := by decide
  obtain ⟨-, -, -, hself⟩ := distance_laws cosine a b
  obtain ⟨-, hsign, hcomm, -⟩ := distance_laws euclidean a b
  exact ⟨hfinite, by decide +kernel, hself hfinite, hsign, hcomm⟩

end Metric

end SemanticStore
