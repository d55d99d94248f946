import SemanticStore.Proofs.Scalar.Value

/-!
# The numerical order as an order of integers

`Scalar.height` counts the bits of a number up from zero, or down from zero where its sign bit is
set. Numbers compare as their heights do (`Scalar.compare_height`), so the numerical order is
transitive (`Scalar.le_trans`), and whatever stands first in the total order of bit patterns is
numerically at most what follows, unless one of the two is NaN (`Scalar.le_of_rank_le`).
-/

namespace SemanticStore

open Float.Model (Format UnpackedFloat)

/-! ### Numbers and their negatives -/

namespace Single

open Float.Model.UnpackedFloat (Sign)

variable {f g : UnpackedFloat}

lemma neg_ofParts (s : Sign) (e m : ℕ) : (ofParts s e m).neg = ofParts (-s) e m := by
  unfold ofParts
  split_ifs <;> rfl

lemma compare_neg (hf : Plus f) (hg : Plus g) : f.neg.compare g.neg = g.compare f := by
  cases f with
  | notANumber => cases g <;> rfl
  | infinity s => cases s <;> cases g <;> cases hg <;> cases hf <;> rfl
  | zero s => cases s <;> cases g <;> cases hg <;> cases hf <;> rfl
  | finite s m e hm =>
    obtain rfl : s = .positive := hf
    cases g with
    | notANumber => rfl
    | infinity s => cases hg; rfl
    | zero s => cases hg; rfl
    | finite s m' e' hm' =>
      obtain rfl : s = .positive := hg
      show some ((compare e e').then (compare m m')).swap = some ((compare e' e).then (compare m' m))
      rw [Ordering.swap_then, ← Int.compare_swap e e', ← Nat.compare_swap m m']

/-- What has no minus sign is above the negative of what has none, unless both are zero. -/
lemma compare_neg_of_plus (hf : Plus f) (hg : Plus g) (hfn : f ≠ .notANumber)
    (hgn : g ≠ .notANumber) (hzero : ¬ (f = .zero .positive ∧ g = .zero .positive)) :
    f.compare g.neg = some .gt ∧ g.neg.compare f = some .lt := by
  cases f with
  | notANumber => exact absurd rfl hfn
  | infinity s => cases hf; cases g <;> cases hg <;> first | exact absurd rfl hgn | exact ⟨rfl, rfl⟩
  | zero s =>
    cases hf
    cases g <;> cases hg <;>
      first | exact absurd rfl hgn | exact absurd ⟨rfl, rfl⟩ hzero | exact ⟨rfl, rfl⟩
  | finite s m e hm =>
    cases hf
    cases g <;> cases hg <;> first | exact absurd rfl hgn | exact ⟨rfl, rfl⟩

lemma ofParts_eq_zero_iff {n : ℕ} :
    ofParts .positive (n / 2 ^ 23) (n % 2 ^ 23) = .zero .positive ↔ n = 0 := by
  unfold ofParts
  split_ifs with he hm hz hm
  · exact iff_of_false nofun (by omega)
  · exact iff_of_false nofun (by omega)
  · exact iff_of_true rfl (by omega)
  · exact iff_of_false nofun (by omega)
  · exact iff_of_false nofun (by omega)

end Single

namespace Scalar

open Single

variable {x y z : Scalar}

/-! ### Heights -/

/-- The number without its sign bit. -/
def magnitude (x : Scalar) : Scalar := ⟨x.bits &&& 0x7fffffff⟩

lemma toNat_magnitude (x : Scalar) : x.magnitude.bits.toNat = x.bits.toNat % 2 ^ 31 := by
  unfold magnitude
  rw [UInt32.toNat_and]
  exact Nat.and_two_pow_sub_one_eq_mod _ 31

lemma unsigned_magnitude (x : Scalar) : x.magnitude.Unsigned :=
  (toNat_magnitude x).trans_lt (Nat.mod_lt _ (Nat.two_pow_pos 31))

lemma magnitude_of_unsigned (h : x.Unsigned) : x.magnitude = x := by
  have hbits : x.magnitude.bits.toNat = x.bits.toNat := by
    rw [toNat_magnitude]
    exact Nat.mod_eq_of_lt h
  exact congrArg Scalar.mk (UInt32.toNat_inj.mp hbits)

/-- A number with a sign bit is the negative of the number without it. -/
lemma value_of_not_unsigned (h : ¬ x.Unsigned) : x.value = x.magnitude.value.neg := by
  have hlt : x.bits.toBitVec.toNat < 2 ^ 32 := x.bits.toBitVec.isLt
  have hge : ¬ x.bits.toBitVec.toNat < 2 ^ 31 := h
  have hs : signOf x.bits.toBitVec.toNat = .negative := if_neg hge
  have hn : x.magnitude.bits.toNat = x.bits.toBitVec.toNat % 2 ^ 31 := toNat_magnitude x
  have hfield : x.bits.toBitVec.toNat / 2 ^ 23 % 2 ^ 8 = x.bits.toBitVec.toNat % 2 ^ 31 / 2 ^ 23 := by
    omega
  have hfraction : x.bits.toBitVec.toNat % 2 ^ 23 = x.bits.toBitVec.toNat % 2 ^ 31 % 2 ^ 23 := by
    omega
  have hvalue : x.value = _ := unpack_eq _
  rw [hvalue, (unsigned_magnitude x).value_eq, neg_ofParts, hn, hs, hfield, hfraction]
  rfl

lemma isNaN_magnitude (x : Scalar) : x.magnitude.isNaN = x.isNaN := by
  unfold isNaN magnitude
  simp [UInt32.and_assoc]

/-- The bits of a number counted up from zero, or down from zero if it has a sign bit. -/
def height (x : Scalar) : ℤ :=
  if x.Unsigned then x.magnitude.bits.toNat else -(x.magnitude.bits.toNat : ℤ)

/-- A sign bit and no sign bit: the first number is below the second, unless both are zero. -/
lemma compare_of_signs (hx : x.Unsigned) (hy : ¬ y.Unsigned) (hxn : x.isNaN = false)
    (hyn : y.isNaN = false) :
    x.value.compare y.value = some (compare x.height y.height) ∧
      y.value.compare x.value = some (compare y.height x.height) := by
  have hx0 : x.value = .zero .positive ↔ x.bits.toNat = 0 := by
    rw [hx.value_eq, ofParts_eq_zero_iff]
  have hy0 : y.magnitude.value = .zero .positive ↔ y.magnitude.bits.toNat = 0 := by
    rw [(unsigned_magnitude y).value_eq, ofParts_eq_zero_iff]
  have hxh : x.height = x.bits.toNat := by
    unfold height
    rw [if_pos hx, magnitude_of_unsigned hx]
  have hyh : y.height = -(y.magnitude.bits.toNat : ℤ) := if_neg hy
  have hxv : x.value ≠ .notANumber := fun h => by simp [(isNaN_iff x).mpr h] at hxn
  have hyv : y.magnitude.value ≠ .notANumber := fun h => by
    rw [← isNaN_magnitude, (isNaN_iff _).mpr h] at hyn
    cases hyn
  rw [value_of_not_unsigned hy, hxh, hyh]
  by_cases hzero : x.value = .zero .positive ∧ y.magnitude.value = .zero .positive
  · rw [hx0.mp hzero.1, hy0.mp hzero.2, hzero.1, hzero.2]
    exact ⟨rfl, rfl⟩
  · obtain ⟨hgt, hlt⟩ :=
      compare_neg_of_plus hx.plus (unsigned_magnitude y).plus hxv hyv hzero
    rw [hx0, hy0] at hzero
    rw [hgt, hlt, Int.compare_eq_gt.mpr (by omega), Int.compare_eq_lt.mpr (by omega)]
    exact ⟨rfl, rfl⟩

/-- **Numbers compare as their heights do.** -/
theorem compare_height (hxn : x.isNaN = false) (hyn : y.isNaN = false) :
    x.value.compare y.value = some (compare x.height y.height) := by
  by_cases hx : x.Unsigned
  · by_cases hy : y.Unsigned
    · unfold height
      rw [if_pos hx, if_pos hy, magnitude_of_unsigned hx, magnitude_of_unsigned hy,
        compare_value hx hy hxn hyn]
      exact congrArg some (compare_eq_compare (by omega) (by omega))
    · exact (compare_of_signs hx hy hxn hyn).1
  · by_cases hy : y.Unsigned
    · exact (compare_of_signs hy hx hyn hxn).2
    · have hxm := unsigned_magnitude x
      have hym := unsigned_magnitude y
      unfold height
      rw [if_neg hx, if_neg hy, value_of_not_unsigned hx, value_of_not_unsigned hy,
        compare_neg hxm.plus hym.plus, compare_value hym hxm (by rwa [isNaN_magnitude])
          (by rwa [isNaN_magnitude])]
      exact congrArg some (compare_eq_compare (by omega) (by omega))

/-! ### Numerical order -/

lemma isNaN_eq_false_of_le (h : x.le y = true) : x.isNaN = false ∧ y.isNaN = false := by
  rw [le_eq] at h
  constructor
  · refine eq_false_of_ne_true fun hn => ?_
    rw [(isNaN_iff x).mp hn] at h
    cases h
  · refine eq_false_of_ne_true fun hn => ?_
    rw [(isNaN_iff y).mp hn] at h
    cases hx : x.value <;> rw [hx] at h <;> cases h

theorem le_iff_height (hxn : x.isNaN = false) (hyn : y.isNaN = false) :
    x.le y = true ↔ x.height ≤ y.height := by
  rw [le_eq, compare_height hxn hyn, Option.any_some, Int.isLE_compare]

/-- **The numerical order is transitive.** -/
theorem le_trans (hxy : x.le y = true) (hyz : y.le z = true) : x.le z = true := by
  obtain ⟨hxn, hyn⟩ := isNaN_eq_false_of_le hxy
  obtain ⟨-, hzn⟩ := isNaN_eq_false_of_le hyz
  rw [le_iff_height hxn hyn] at hxy
  rw [le_iff_height hyn hzn] at hyz
  exact (le_iff_height hxn hzn).mpr (hxy.trans hyz)

/-- In the total order what has a sign bit stands one lower, so minus zero is below plus zero. -/
lemma rank_cases (x : Scalar) :
    x.rank = x.height ∧ 0 ≤ x.height ∨ x.rank = x.height - 1 ∧ x.height ≤ 0 := by
  unfold height
  split_ifs with hu
  · rw [hu.rank_eq, magnitude_of_unsigned hu]
    exact .inl ⟨rfl, by omega⟩
  · have hlt : ¬ x.bits < 0x80000000 := fun h => hu (UInt32.lt_iff_toNat_lt.mp h)
    have hn : x.bits.toNat < 2 ^ 32 := x.bits.toNat_lt
    have hge : ¬ x.bits.toNat < 2 ^ 31 := hu
    unfold rank
    rw [if_neg hlt, toNat_magnitude]
    exact .inr ⟨by omega, by omega⟩

/-- **What is not behind a number in the total order is numerically at most that number.** -/
theorem le_of_rank_le (hxn : x.isNaN = false) (hyn : y.isNaN = false) (h : x.rank ≤ y.rank) :
    x.le y = true := by
  rw [le_iff_height hxn hyn]
  rcases rank_cases x with hx | hx <;> rcases rank_cases y with hy | hy <;> omega

end Scalar

end SemanticStore
