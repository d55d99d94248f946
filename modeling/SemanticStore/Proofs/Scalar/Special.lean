import SemanticStore.Proofs.Scalar.Value

/-!
# Infinity and NaN

A number is special if it is infinite or NaN; a scalar stands for a special number just if it is not
finite. Sums, differences and products with a special operand are special, and so is the root of a
special number. The quotient of two special numbers is NaN.
-/

namespace SemanticStore

open Float.Model (Format UnpackedFloat)

namespace Single

/-- Infinite or NaN. -/
def Special : UnpackedFloat → Prop
  | .infinity _ => True
  | .notANumber => True
  | _ => False

variable {f g : UnpackedFloat}

/-! ### Arithmetic with special numbers -/

lemma special_add (h : Special f ∨ Special g) : Special (UnpackedFloat.add Format.binary32 f g) := by
  cases f <;> cases g <;> simp [Special] at h <;> simp only [UnpackedFloat.add] <;>
    first | trivial | (split <;> trivial)

lemma special_sub (h : Special f ∨ Special g) : Special (UnpackedFloat.sub Format.binary32 f g) := by
  cases f <;> cases g <;> simp [Special] at h <;> simp only [UnpackedFloat.sub] <;>
    first | trivial | (split <;> trivial)

/-- Even zero times infinity is special: it is NaN. -/
lemma special_mul (h : Special f ∨ Special g) : Special (UnpackedFloat.mul Format.binary32 f g) := by
  cases f <;> cases g <;> simp [Special] at h <;> trivial

lemma special_sqrt (h : Special f) : Special (UnpackedFloat.sqrt Format.binary32 f) := by
  cases f with
  | infinity s => cases s <;> trivial
  | notANumber => trivial
  | zero s => exact h.elim
  | finite s m e hm => exact h.elim

lemma div_special (hf : Special f) (hg : Special g) :
    UnpackedFloat.div Format.binary32 f g = .notANumber := by
  cases f <;> cases g <;> simp [Special] at hf hg <;> rfl

lemma special_unpack_iff (b : BitVec 32) :
    Special (UnpackedFloat.unpack Format.binary32 b) ↔ b.toNat / 2 ^ 23 % 2 ^ 8 = 255 := by
  rw [unpack_eq]
  unfold ofParts
  split
  · rename_i hones
    simp only [hones, iff_true]
    split <;> trivial
  · rename_i hones
    simp only [hones, iff_false]
    split
    · split <;> simp [Special]
    · simp [Special]

end Single

namespace Scalar

open Single

variable {x y : Scalar}

/-! ### Scalars that are not finite -/

lemma and_shiftLeft (m k n : ℕ) : n &&& m <<< k = (n >>> k &&& m) <<< k := by
  refine Nat.eq_of_testBit_eq fun i => ?_
  simp only [Nat.testBit_and, Nat.testBit_shiftLeft, Nat.testBit_shiftRight]
  by_cases hi : k ≤ i
  · simp [hi]
  · simp [hi]

theorem isFinite_eq_false_iff (x : Scalar) : x.isFinite = false ↔ Special x.value := by
  have hfield : (x.bits &&& 0x7f800000).toNat =
      x.bits.toBitVec.toNat / 2 ^ 23 % 2 ^ 8 * 2 ^ 23 := by
    have hmask : (0x7f800000 : UInt32).toNat = (2 ^ 8 - 1) <<< 23 := rfl
    rw [UInt32.toNat_and, hmask, and_shiftLeft, Nat.and_two_pow_sub_one_eq_mod,
      Nat.shiftRight_eq_div_pow, Nat.shiftLeft_eq]
    rfl
  unfold value isFinite
  rw [special_unpack_iff, bne_eq_false_iff_eq, ← UInt32.toNat_inj, hfield]
  show _ * 2 ^ 23 = 255 * 2 ^ 23 ↔ _
  omega

lemma value_pack_special {f : UnpackedFloat} (hf : Special f) : (pack f).value = f := by
  cases f with
  | infinity s => exact value_pack trivial trivial
  | notANumber => exact value_pack trivial trivial
  | zero s => exact hf.elim
  | finite s m e hm => exact hf.elim

theorem special_value_add (h : Special x.value ∨ Special y.value) : Special (x + y).value := by
  have hsum := special_add h
  rwa [add_eq, value_pack_special hsum]

theorem special_value_sub (h : Special x.value ∨ Special y.value) : Special (x - y).value := by
  have hdifference := special_sub h
  rwa [sub_eq, value_pack_special hdifference]

theorem special_value_mul (h : Special x.value ∨ Special y.value) : Special (x * y).value := by
  have hproduct := special_mul h
  rwa [mul_eq, value_pack_special hproduct]

theorem special_value_sqrt (h : Special x.value) : Special x.sqrt.value := by
  have hroot := special_sqrt h
  rwa [sqrt_eq, value_pack_special hroot]

lemma div_eq (x y : Scalar) : x / y = pack (UnpackedFloat.div Format.binary32 x.value y.value) := by
  rw [← unpack_toFloat32, ← unpack_toFloat32]
  rfl

theorem isNaN_div (hx : Special x.value) (hy : Special y.value) : (x / y).isNaN = true := by
  rw [isNaN_iff, div_eq, div_special hx hy]
  exact value_pack trivial trivial

/-! ### Infinity among the scalars -/

lemma value_infinity : infinity.value = .infinity .positive := by
  unfold value
  rw [unpack_eq]
  rfl

/-- A number without a sign bit that is special, or has the bits of infinity or more, is infinity. -/
theorem Unsigned.eq_infinity (hu : x.Unsigned) (hn : x.isNaN = false)
    (h : Special x.value ∨ infinity.bits.toNat ≤ x.bits.toNat) : x = infinity := by
  have hv : x.value ≠ .notANumber := fun h => by simp [(isNaN_iff x).mpr h] at hn
  have hinfinity : infinity.bits.toNat = 255 * 2 ^ 23 := rfl
  have hbits : x.bits.toNat < 2 ^ 31 := hu
  rw [hinfinity] at h
  rw [hu.value_eq] at h hv
  rcases ofParts_cases hv with ⟨heq, -⟩ | ⟨heq, hzero⟩ | ⟨m, e, hm, hfinite, hfield, -⟩
  · have hx : x.bits = 0x7f800000 := UInt32.toNat_inj.mp heq
    exact congrArg Scalar.mk hx
  · rw [hzero] at h
    rcases h with hs | h
    · exact hs.elim
    · omega
  · rw [hfinite] at h
    rcases h with hs | h
    · exact hs.elim
    · omega

/-- Among numbers, none ranks behind infinity. -/
theorem eq_infinity_of_rank_le (hn : x.isNaN = false) (h : infinity.rank ≤ x.rank) :
    x = infinity := by
  have hrank : infinity.rank = (infinity.bits.toNat : ℤ) := rfl
  have hbits : infinity.bits.toNat = 255 * 2 ^ 23 := rfl
  by_cases hu : x.Unsigned
  · rw [hrank, hu.rank_eq] at h
    exact hu.eq_infinity hn (.inr (by omega))
  · -- with a sign bit the rank is negative
    have hx : ¬ x.bits.toNat < 2 ^ 31 := hu
    have hlt : ¬ x.bits < 0x80000000 := fun hlt => hx (UInt32.lt_iff_toNat_lt.mp hlt)
    rw [hrank, hbits, rank, if_neg hlt] at h
    omega

theorem infinity_le_eq_false (h : x.isFinite = true) : infinity.le x = false := by
  have hx : ¬ Special x.value := by
    intro hs
    rw [(isFinite_eq_false_iff x).mpr hs] at h
    cases h
  rw [le_eq, value_infinity]
  cases hv : x.value with
  | infinity s =>
    rw [hv] at hx
    exact absurd trivial hx
  | notANumber => rfl
  | zero s => rfl
  | finite s m e hm => rfl

end Scalar

end SemanticStore
