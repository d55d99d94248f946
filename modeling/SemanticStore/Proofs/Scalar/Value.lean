import SemanticStore.Proofs.Scalar.Packing

/-!
# The numbers behind the bits

`Scalar.value` is the number that the bits of a scalar stand for, and `Scalar.pack` the scalar of a
number. An operation unpacks its arguments, computes with the numbers and packs the result
(`Scalar.add_eq` and so on).

For scalars without a sign bit that are numbers, the numerical order is the order of their bits
(`Scalar.compare_value`), so it is the total order that `Scalar.rank` gives (`Scalar.Ranked.le_iff`,
`Scalar.Ranked.numEq_iff`).
-/

namespace SemanticStore.Scalar

open Float.Model (Format UnpackedFloat)
open Single

/-- The number the bits stand for. -/
def value (x : Scalar) : UnpackedFloat := UnpackedFloat.unpack Format.binary32 x.bits.toBitVec

/-- The scalar of a number. -/
def pack (f : UnpackedFloat) : Scalar := ⟨UInt32.ofBitVec (UnpackedFloat.pack Format.binary32 f)⟩

theorem value_pack {f : UnpackedFloat} (hf : Rounded f) (hheld : Held f) : (pack f).value = f :=
  unpack_pack hf hheld

/-! ### Operations -/

/-- Whatever a scalar's bits are, arithmetic takes them for the number they stand for. -/
lemma unpack_toFloat32 (x : Scalar) : x.toFloat32.toModel.unpack = x.value :=
  unpack_pack (rounded_unpack _) (held_unpack _)

lemma add_eq (x y : Scalar) : x + y = pack (UnpackedFloat.add Format.binary32 x.value y.value) := by
  rw [← unpack_toFloat32, ← unpack_toFloat32]
  rfl

lemma sub_eq (x y : Scalar) : x - y = pack (UnpackedFloat.sub Format.binary32 x.value y.value) := by
  rw [← unpack_toFloat32, ← unpack_toFloat32]
  rfl

lemma mul_eq (x y : Scalar) : x * y = pack (UnpackedFloat.mul Format.binary32 x.value y.value) := by
  rw [← unpack_toFloat32, ← unpack_toFloat32]
  rfl

lemma sqrt_eq (x : Scalar) : x.sqrt = pack (UnpackedFloat.sqrt Format.binary32 x.value) := by
  rw [← unpack_toFloat32]
  rfl

lemma lt_eq (x y : Scalar) : x.lt y = (x.value.compare y.value == some .lt) := by
  rw [← unpack_toFloat32, ← unpack_toFloat32, Bool.eq_iff_iff]
  exact decide_eq_true_iff.trans decide_eq_true_iff

lemma le_eq (x y : Scalar) : x.le y = (x.value.compare y.value).any (·.isLE) := by
  rw [← unpack_toFloat32, ← unpack_toFloat32, Bool.eq_iff_iff]
  exact decide_eq_true_iff.trans decide_eq_true_iff

lemma numEq_eq (x y : Scalar) : x.numEq y = (x.value.compare y.value == some .eq) := by
  rw [← unpack_toFloat32, ← unpack_toFloat32]
  rfl

/-! ### Scalars without a sign bit -/

/-- The sign bit is not set. -/
def Unsigned (x : Scalar) : Prop := x.bits.toNat < 2 ^ 31

instance (x : Scalar) : Decidable x.Unsigned := by unfold Unsigned; infer_instance

variable {x y : Scalar}

theorem unsigned_pack {f : UnpackedFloat} (hf : Plus f) : (pack f).Unsigned := pack_lt_of_plus hf

theorem Unsigned.plus (h : x.Unsigned) : Plus x.value := plus_unpack h

lemma Unsigned.value_eq (h : x.Unsigned) :
    x.value = ofParts .positive (x.bits.toNat / 2 ^ 23) (x.bits.toNat % 2 ^ 23) := by
  have hn : x.bits.toBitVec.toNat < 2 ^ 31 := h
  have hfield : x.bits.toBitVec.toNat / 2 ^ 23 % 2 ^ 8 = x.bits.toBitVec.toNat / 2 ^ 23 := by omega
  have hs : signOf x.bits.toBitVec.toNat = .positive := if_pos hn
  unfold value
  rw [unpack_eq, hfield, hs]
  rfl

lemma Unsigned.rank_eq (h : x.Unsigned) : x.rank = x.bits.toNat := by
  have hlt : x.bits < 0x80000000 := UInt32.lt_iff_toNat_lt.mpr h
  exact if_pos hlt

theorem isNaN_iff (x : Scalar) : x.isNaN = true ↔ x.value = .notANumber := by
  have hn : x.bits.toBitVec.toNat < 2 ^ 32 := x.bits.toBitVec.isLt
  have hmask : (x.bits &&& 0x7fffffff).toNat = x.bits.toBitVec.toNat % 2 ^ 31 := by
    rw [UInt32.toNat_and]
    exact Nat.and_two_pow_sub_one_eq_mod _ 31
  have hbits : x.isNaN = true ↔ 0x7f800000 < x.bits.toBitVec.toNat % 2 ^ 31 := by
    rw [← hmask]
    unfold isNaN
    rw [decide_eq_true_eq, UInt32.lt_iff_toNat_lt]
    rfl
  rw [hbits]
  unfold value
  rw [unpack_eq]
  unfold ofParts
  split
  · split
    · refine iff_of_false (by omega) (by simp)
    · refine iff_of_true (by omega) rfl
  · refine iff_of_false (by omega) ?_
    split
    · split <;> simp
    · simp

/-! ### Order -/

/-- What a word without a sign bit stands for: infinity, zero, or a finite number. -/
lemma ofParts_cases {n : ℕ} (h : ofParts .positive (n / 2 ^ 23) (n % 2 ^ 23) ≠ .notANumber) :
    (n = 255 * 2 ^ 23 ∧ ofParts .positive (n / 2 ^ 23) (n % 2 ^ 23) = .infinity .positive) ∨
    (n = 0 ∧ ofParts .positive (n / 2 ^ 23) (n % 2 ^ 23) = .zero .positive) ∨
    ∃ m e hm, ofParts .positive (n / 2 ^ 23) (n % 2 ^ 23) = .finite .positive m e hm ∧
      n / 2 ^ 23 ≠ 255 ∧ 0 < n ∧
      (e = -149 ∧ m = n ∧ n < 2 ^ 23 ∨
        e = (n / 2 ^ 23 : ℕ) - 150 ∧ m = 2 ^ 23 + n % 2 ^ 23 ∧ 2 ^ 23 ≤ n) := by
  unfold ofParts at h ⊢
  split_ifs at h ⊢ with he hm hz hm
  · exact .inl ⟨by omega, rfl⟩
  · exact absurd rfl h
  · exact .inr (.inl ⟨by omega, rfl⟩)
  · refine .inr (.inr ⟨_, _, Nat.pos_of_ne_zero hm, rfl, he, ?_, .inl ⟨rfl, ?_, ?_⟩⟩) <;> omega
  · refine .inr (.inr ⟨_, _, by omega, rfl, he, ?_, .inr ⟨rfl, rfl, ?_⟩⟩) <;> omega

lemma compare_eq_compare {α β : Type} [LinearOrder α] [LinearOrder β] {a b : α} {c d : β}
    (hlt : a < b ↔ c < d) (hgt : b < a ↔ d < c) : compare a b = compare c d := by
  rcases lt_trichotomy a b with h | h | h
  · rw [compare_lt_iff_lt.mpr h, compare_lt_iff_lt.mpr (hlt.mp h)]
  · have hcd : c = d := le_antisymm (not_lt.mp (mt hgt.mpr h.not_gt)) (not_lt.mp (mt hlt.mpr h.not_lt))
    rw [compare_eq_iff_eq.mpr h, compare_eq_iff_eq.mpr hcd]
  · rw [compare_gt_iff_gt.mpr h, compare_gt_iff_gt.mpr (hgt.mp h)]

/-- **Numbers without a sign bit compare like their bits.** -/
theorem compare_value (hx : x.Unsigned) (hy : y.Unsigned) (hxn : x.isNaN = false)
    (hyn : y.isNaN = false) :
    x.value.compare y.value = some (compare x.bits.toNat y.bits.toNat) := by
  have hxv : x.value ≠ .notANumber := fun h => by rw [(isNaN_iff x).mpr h] at hxn; cases hxn
  have hyv : y.value ≠ .notANumber := fun h => by rw [(isNaN_iff y).mpr h] at hyn; cases hyn
  rw [hx.value_eq] at hxv ⊢
  rw [hy.value_eq] at hyv ⊢
  have hxlt : x.bits.toNat < 2 ^ 31 := hx
  have hylt : y.bits.toNat < 2 ^ 31 := hy
  generalize x.bits.toNat = a at *
  generalize y.bits.toNat = b at *
  rcases ofParts_cases hxv with ⟨ha, hva⟩ | ⟨ha, hva⟩ | ⟨m, e, hm, hva, ha, hapos, hafield⟩ <;>
    rcases ofParts_cases hyv with ⟨hb, hvb⟩ | ⟨hb, hvb⟩ | ⟨m', e', hm', hvb, hb, hbpos, hbfield⟩ <;>
    rw [hva, hvb]
  · subst ha hb
    rfl
  · exact congrArg some (Nat.compare_eq_gt.mpr (by omega)).symm
  · exact congrArg some (Nat.compare_eq_gt.mpr (by omega)).symm
  · exact congrArg some (Nat.compare_eq_lt.mpr (by omega)).symm
  · subst ha hb
    rfl
  · exact congrArg some (Nat.compare_eq_lt.mpr (by omega)).symm
  · exact congrArg some (Nat.compare_eq_lt.mpr (by omega)).symm
  · exact congrArg some (Nat.compare_eq_gt.mpr (by omega)).symm
  · -- by exponents first, then by mantissas
    show some ((compare e e').then (compare m m')) = some (compare a b)
    congr 1
    rcases Int.lt_trichotomy e e' with he | he | he
    · have hab : a < b := by omega
      rw [Int.compare_eq_lt.mpr he, Nat.compare_eq_lt.mpr hab]
      rfl
    · rw [Int.compare_eq_eq.mpr he]
      exact compare_eq_compare (by omega) (by omega)
    · have hab : b < a := by omega
      rw [Int.compare_eq_gt.mpr he, Nat.compare_eq_gt.mpr hab]
      rfl

/-- Two scalars compare numerically as their ranks do. -/
def Ranked (x y : Scalar) : Prop := x.value.compare y.value = some (compare x.rank y.rank)

theorem ranked_of_unsigned (hx : x.Unsigned) (hy : y.Unsigned) (hxn : x.isNaN = false)
    (hyn : y.isNaN = false) : Ranked x y := by
  unfold Ranked
  rw [compare_value hx hy hxn hyn, hx.rank_eq, hy.rank_eq]
  exact congrArg some (compare_eq_compare (by omega) (by omega))

namespace Ranked

theorem le_iff (h : Ranked x y) : x.le y = true ↔ x.rank ≤ y.rank := by
  rw [le_eq, h, Option.any_some, Int.isLE_compare]

theorem numEq_iff (h : Ranked x y) : x.numEq y = true ↔ x.rank = y.rank := by
  rw [numEq_eq, h, ← Int.compare_eq_eq]
  simp

end Ranked

/-! ### Signs of results -/

lemma value_zero : zero.value = .zero .positive := by
  unfold value
  rw [unpack_eq]
  rfl

lemma value_negZero : negZero.value = .zero .negative := by
  unfold value
  rw [unpack_eq]
  rfl

theorem unsigned_add (hx : x.Unsigned) (hy : y.Unsigned) : (x + y).Unsigned := by
  rw [add_eq]
  exact unsigned_pack (plus_add hx.plus hy.plus)

theorem unsigned_negZero_add (hx : x.Unsigned) : (negZero + x).Unsigned := by
  rw [add_eq, value_negZero]
  exact unsigned_pack (plus_add_negZero hx.plus)

theorem unsigned_mul_self (x : Scalar) : (x * x).Unsigned := by
  rw [mul_eq]
  exact unsigned_pack (plus_mul_self _)

theorem unsigned_sqrt (hx : x.Unsigned) : x.sqrt.Unsigned := by
  rw [sqrt_eq]
  exact unsigned_pack (plus_sqrt hx.plus)

lemma negInfinity_lt_zero : (pack (.infinity .negative)).lt zero = true := by
  have hvalue : (pack (.infinity .negative)).value = .infinity .negative :=
    value_pack trivial trivial
  rw [lt_eq, value_zero, hvalue]
  rfl

lemma lt_zero_of_finite {m : ℕ} {e : ℤ} {hm : 0 < m} (h : Rounded (.finite .negative m e hm)) :
    (pack (.finite .negative m e hm)).lt zero = true := by
  rw [lt_eq, value_zero]
  rcases le_or_gt e 104 with he | he
  · rw [value_pack h he]
    rfl
  · have hlarge : (pack (.finite .negative m e hm)).value = .infinity .negative :=
      unpack_pack_large hm he
    rw [hlarge]
    rfl

/-- **What is left of a positive number has no sign bit, unless it is below zero.** -/
theorem unsigned_sub (hx : ∃ m e hm, x.value = .finite .positive m e hm)
    (hlt : (x - y).lt zero = false) : (x - y).Unsigned := by
  obtain ⟨m, e, hm, hxv⟩ := hx
  have hxr : Rounded x.value := rounded_unpack _
  have hyr : Rounded y.value := rounded_unpack _
  rw [sub_eq] at hlt ⊢
  rw [hxv] at hxr hlt ⊢
  cases hyv : y.value with
  | notANumber => exact unsigned_pack trivial
  | zero s => exact unsigned_pack rfl
  | infinity s =>
    cases s with
    | negative => exact unsigned_pack rfl
    | positive =>
      rw [hyv] at hlt
      exact absurd (negInfinity_lt_zero.symm.trans hlt) (by decide)
  | finite s m' e' hm' =>
    rw [hyv] at hyr hlt
    have hmin : -149 ≤ min e e' := le_min hxr.2.1 hyr.2.1
    have hsub : UnpackedFloat.sub Format.binary32 (.finite .positive m e hm) (.finite s m' e' hm') =
        UnpackedFloat.normalize Format.binary32
          ((m <<< (e - min e e').toNat : ℕ) - s.apply (m' <<< (e' - min e e').toNat : ℕ)) (min e e')
          .positive := rfl
    rw [hsub] at hlt ⊢
    generalize ((m <<< (e - min e e').toNat : ℕ) : ℤ) -
      s.apply (m' <<< (e' - min e e').toNat : ℕ) = d at hlt ⊢
    unfold UnpackedFloat.normalize at hlt ⊢
    rcases Int.lt_trichotomy d 0 with hd | hd | hd
    · rw [Int.compare_eq_lt.mpr hd] at hlt
      obtain ⟨m, e, hm, hround, hfit⟩ := round_cases .negative (m := (-d).toNat) (by omega) hmin
      dsimp only at hlt
      rw [hround, lt_zero_of_finite hfit] at hlt
      cases hlt
    · rw [Int.compare_eq_eq.mpr hd]
      exact unsigned_pack rfl
    · rw [Int.compare_eq_gt.mpr hd]
      exact unsigned_pack (plus_round ..)

end SemanticStore.Scalar
