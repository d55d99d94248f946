import Mathlib

/-!
# Rounding to single precision

`Single.Rounded` says of an unpacked number that single precision can hold its mantissa and its
least exponent. `Single.order` is the place of the leading bit of a number: a number of order `o` is
at least `2 ^ o` and less than `2 ^ (o + 1)`.

A number is shifted to its target exponent and rounded to the nearest mantissa there
(`Single.nearest`). Whatever is rounded is held, keeps its sign, and keeps its order or raises it by
one (`Single.roundWithAccuracy_order`). `Single.Plus` says that a number has no minus sign; squares,
sums and square roots of such numbers have none either.
-/

namespace SemanticStore.Single

open Float.Model (Format UnpackedFloat totalExponent)
open Float.Model.UnpackedFloat

/-- A mantissa of at most 24 bits, exactly 24 unless the exponent is the least one. -/
def Rounded : UnpackedFloat → Prop
  | .finite _ m e _ => m < 2 ^ 24 ∧ -149 ≤ e ∧ (e = -149 ∨ 2 ^ 23 ≤ m)
  | _ => True

/-! ### Shifting -/

/-- The exponent that a mantissa with this exponent is rounded to. -/
def target (m : ℕ) (e : ℤ) : ℤ := max (m.log2 + 1 + e - 24) (-149)

lemma mantissa_shiftRight (em : ExtendedMantissa) (k : ℕ) :
    (em >>> k).mantissa = em.mantissa / 2 ^ k := by
  change (k.repeat ExtendedMantissa.shiftRightOne em).mantissa = _
  induction k with
  | zero => simp [Nat.repeat]
  | succ k ih =>
    rw [Nat.repeat, ExtendedMantissa.shiftRightOne, ih, Nat.div_div_eq_div_mul, ← pow_succ]

lemma mantissa_ofMantissaAndAccuracy (m : ℕ) (acc : Accuracy) :
    (ExtendedMantissa.ofMantissaAndAccuracy m acc).mantissa = m := by
  rcases acc with - | o
  · rfl
  · cases o <;> rfl

lemma roundedMantissa_bounds (em : ExtendedMantissa) :
    em.mantissa ≤ em.roundedMantissa ∧ em.roundedMantissa ≤ em.mantissa + 1 := by
  obtain ⟨m, r, s⟩ := em
  cases r <;> cases s <;>
    simp only [ExtendedMantissa.roundedMantissa, ExtendedMantissa.accuracy,
      Accuracy.roundToNearestEven] <;> omega

lemma shiftToTargetExponent_eq (m : ℕ) (e : ℤ) (acc : Accuracy) :
    (shiftToTargetExponent Format.binary32 m e acc).1.mantissa = m / 2 ^ (target m e - e).toNat ∧
      (shiftToTargetExponent Format.binary32 m e acc).2 = e + (target m e - e).toNat := by
  refine ⟨?_, rfl⟩
  show (ExtendedMantissa.ofMantissaAndAccuracy m acc >>> (target m e - e).toNat).mantissa = _
  rw [mantissa_shiftRight, mantissa_ofMantissaAndAccuracy]

/-- A shift to the target leaves 24 bits, or fewer at the least exponent. -/
lemma shift_bounds {m : ℕ} {e : ℤ} (hm : 0 < m) (he : e ≤ target m e) :
    m / 2 ^ (target m e - e).toNat < 2 ^ 24 ∧
      (target m e = -149 ∨ 2 ^ 23 ≤ m / 2 ^ (target m e - e).toNat) := by
  have hlow : 2 ^ m.log2 ≤ m := Nat.log2_self_le hm.ne'
  have hhigh : m < 2 ^ (m.log2 + 1) := Nat.lt_log2_self
  have hk : ((target m e - e).toNat : ℤ) = target m e - e := Int.toNat_of_nonneg (by omega)
  generalize (target m e - e).toNat = k at hk ⊢
  unfold target at *
  refine ⟨?_, ?_⟩
  · refine Nat.div_lt_of_lt_mul (hhigh.trans_le ?_)
    rw [← pow_add]
    exact Nat.pow_le_pow_right (by decide) (by omega)
  · rcases Int.le_total (m.log2 + 1 + e - 24) (-149) with h | h
    · exact .inl (max_eq_right h)
    · rw [max_eq_left h] at hk
      refine .inr ((Nat.le_div_iff_mul_le (Nat.two_pow_pos k)).mpr (le_trans ?_ hlow))
      rw [← pow_add]
      exact Nat.pow_le_pow_right (by decide) (by omega)

/-! ### Leading bits -/

lemma log2_shiftLeft {m : ℕ} (hm : 0 < m) (k : ℕ) : (m <<< k).log2 = m.log2 + k := by
  rw [Nat.log2_eq_iff (Nat.shiftLeft_pos_iff.mpr hm).ne', Nat.shiftLeft_eq]
  have hlow : 2 ^ m.log2 ≤ m := Nat.log2_self_le hm.ne'
  have hhigh : m < 2 ^ (m.log2 + 1) := Nat.lt_log2_self
  constructor
  · rw [pow_add]
    exact Nat.mul_le_mul_right _ hlow
  · have heq : 2 ^ (m.log2 + k + 1) = 2 ^ (m.log2 + 1) * 2 ^ k := by
      rw [← pow_add]
      congr 1
      omega
    rw [heq]
    exact Nat.mul_lt_mul_of_pos_right hhigh (Nat.two_pow_pos k)

/-- The place of the leading bit of a mantissa with this exponent. -/
def order (m : ℕ) (e : ℤ) : ℤ := m.log2 + e

lemma target_eq (m : ℕ) (e : ℤ) : target m e = max (order m e - 23) (-149) := by
  unfold target order
  omega

lemma order_zero (e : ℤ) : order 0 e = e := by simp [order]

lemma order_one (e : ℤ) : order 1 e = e := by
  have hlog : (1 : ℕ).log2 = 0 := Nat.log2_two_pow (n := 0)
  simp [order, hlog]

lemma order_shiftLeft {m : ℕ} (hm : 0 < m) (k : ℕ) (e : ℤ) :
    order (m <<< k) (e - k) = order m e := by
  unfold order
  rw [log2_shiftLeft hm]
  omega

lemma log2_div_two_pow (m k : ℕ) : (m / 2 ^ k).log2 = m.log2 - k := by
  rw [Nat.log2_eq_log_two, Nat.log2_eq_log_two, Nat.log_div_base_pow]

/-! ### Rounding -/

lemma roundWithAccuracy_sign (s : Sign) (m : ℕ) (e : ℤ) (acc : Accuracy) :
    roundWithAccuracy Format.binary32 s m e acc = .zero s ∨
      ∃ m' e' h, roundWithAccuracy Format.binary32 s m e acc = .finite s m' e' h := by
  unfold roundWithAccuracy
  dsimp only
  split
  · exact .inl rfl
  · rename_i hne
    exact .inr ⟨_, _, Nat.pos_of_ne_zero hne, rfl⟩

lemma roundBit_shiftRight (em : ExtendedMantissa) (k : ℕ) :
    (em >>> (k + 1)).roundBit = (em.mantissa / 2 ^ k % 2 != 0) := by
  rw [← mantissa_shiftRight]
  rfl

/-- Without the bit behind it, a mantissa is not rounded up. -/
lemma roundedMantissa_of_roundBit {em : ExtendedMantissa} (h : em.roundBit = false) :
    em.roundedMantissa = em.mantissa := by
  obtain ⟨m, r, s⟩ := em
  obtain rfl : r = false := h
  cases s <;> rfl

/-- Rounding up may carry into a bit that does not fit; a zero is dropped then. -/
lemma shiftToTargetExponent_carry (s : Sign) {r : ℕ} {t : ℤ} (hr : 0 < r) (hr24 : r ≤ 2 ^ 24)
    (ht : -149 ≤ t) (hfull : t = -149 ∨ 2 ^ 23 ≤ r) :
    ∃ h : 0 < (shiftToTargetExponent Format.binary32 r t .exact).1.mantissa,
      Rounded (.finite s _ (shiftToTargetExponent Format.binary32 r t .exact).2 h) ∧
      order (shiftToTargetExponent Format.binary32 r t .exact).1.mantissa
        (shiftToTargetExponent Format.binary32 r t .exact).2 = order r t := by
  obtain ⟨hmant, hexp⟩ := shiftToTargetExponent_eq r t .exact
  generalize shiftToTargetExponent Format.binary32 r t .exact = second at hmant hexp ⊢
  obtain ⟨em, t'⟩ := second
  dsimp only at hmant hexp ⊢
  rcases Nat.lt_or_ge r (2 ^ 24) with hlt | hge
  · have hlog : r.log2 < 24 := (Nat.log2_lt hr.ne').mpr hlt
    have hstay : (target r t - t).toNat = 0 := by
      unfold target
      omega
    rw [hstay, pow_zero, Nat.div_one] at hmant
    obtain rfl : t' = t := by omega
    subst hmant
    exact ⟨hr, ⟨hlt, ht, hfull⟩, rfl⟩
  · obtain rfl : r = 2 ^ 24 := le_antisymm hr24 hge
    have hlog : (2 ^ 24 : ℕ).log2 = 24 := Nat.log2_two_pow
    have hstep : (target (2 ^ 24) t - t).toNat = 1 := by
      unfold target
      omega
    rw [hstep] at hmant hexp
    have hhalf : em.mantissa.log2 = 23 := by
      rw [hmant, log2_div_two_pow, hlog]
    have hcarry : em.mantissa = 2 ^ 23 := hmant
    refine ⟨by omega, ⟨?_, ?_, ?_⟩, ?_⟩
    · omega
    · omega
    · omega
    · unfold order
      omega

lemma log2_mono {q r : ℕ} (h : q ≤ r) : q.log2 ≤ r.log2 := by
  rw [Nat.log2_eq_log_two, Nat.log2_eq_log_two]
  exact Nat.log_mono_right h

lemma log2_between {q r : ℕ} (hq : 0 < q) (hlow : q ≤ r) (hhigh : r ≤ q + 1) :
    q.log2 ≤ r.log2 ∧ r.log2 ≤ q.log2 + 1 := by
  have hr : r ≠ 0 := by omega
  have hlt : q < 2 ^ (q.log2 + 1) := Nat.lt_log2_self
  refine ⟨log2_mono hlow, Nat.lt_succ_iff.mp ((Nat.log2_lt hr).mpr ?_)⟩
  rw [pow_succ]
  omega

/-- The mantissa nearest to a number at its target exponent, before a carry. -/
def nearest (m : ℕ) (e : ℤ) (acc : Accuracy) : ℕ :=
  (shiftToTargetExponent Format.binary32 m e acc).1.roundedMantissa

section Nearest

variable {m : ℕ} {e : ℤ}

lemma nearest_bounds (m : ℕ) (e : ℤ) (acc : Accuracy) :
    m / 2 ^ (target m e - e).toNat ≤ nearest m e acc ∧
      nearest m e acc ≤ m / 2 ^ (target m e - e).toNat + 1 := by
  rw [← (shiftToTargetExponent_eq m e acc).1]
  exact roundedMantissa_bounds _

lemma target_of_low (h : order m e < -149) : target m e = -149 := by
  rw [target_eq]
  omega

/-- A shift to the target keeps the leading bit, if it is not below the least exponent. -/
lemma order_div (he : e ≤ target m e) (hm : 0 < m) (h : -149 ≤ order m e) :
    0 < m / 2 ^ (target m e - e).toNat ∧
      order (m / 2 ^ (target m e - e).toNat) (target m e) = order m e := by
  have htarget := target_eq m e
  have hk : (target m e - e).toNat ≤ m.log2 := by
    unfold order at *
    omega
  refine ⟨Nat.div_pos ((Nat.le_log2 hm.ne').mp hk) (Nat.two_pow_pos _), ?_⟩
  unfold order at *
  rw [log2_div_two_pow]
  omega

/-- Where the leading bit is below the least exponent, nothing is left of it but by rounding. -/
lemma nearest_le_one (hm : 0 < m) (h : order m e < -149) (acc : Accuracy) :
    nearest m e acc ≤ 1 := by
  have htarget := target_of_low h
  have hlow : m / 2 ^ (target m e - e).toNat = 0 := by
    refine Nat.div_eq_of_lt ((Nat.log2_lt hm.ne').mp ?_)
    unfold order at h
    omega
  have hle := (nearest_bounds m e acc).2
  rwa [hlow, zero_add] at hle

/-- Two places below the least exponent, the bit behind the mantissa is not set. -/
lemma nearest_eq_zero (hm : 0 < m) (h : order m e < -150) (acc : Accuracy) :
    nearest m e acc = 0 := by
  have htarget := target_of_low (h.trans (by decide))
  have hlog : m.log2 < (target m e - e).toNat - 1 := by
    unfold order at h
    omega
  obtain ⟨j, hj⟩ : ∃ j, (target m e - e).toNat = j + 1 := ⟨_, (Nat.sub_add_cancel (by omega)).symm⟩
  rw [hj, Nat.add_sub_cancel] at hlog
  have hbit : (shiftToTargetExponent Format.binary32 m e acc).1.roundBit = false := by
    show (ExtendedMantissa.ofMantissaAndAccuracy m acc >>> (target m e - e).toNat).roundBit = false
    rw [hj, roundBit_shiftRight, mantissa_ofMantissaAndAccuracy,
      Nat.div_eq_of_lt ((Nat.log2_lt hm.ne').mp hlog)]
    rfl
  unfold nearest
  rw [roundedMantissa_of_roundBit hbit, (shiftToTargetExponent_eq m e acc).1, hj]
  exact Nat.div_eq_of_lt ((Nat.log2_lt hm.ne').mp (hlog.trans (Nat.lt_succ_self j)))

theorem roundWithAccuracy_nearest (s : Sign) (acc : Accuracy) (he : e ≤ target m e) :
    (roundWithAccuracy Format.binary32 s m e acc = .zero s ∧ nearest m e acc = 0) ∨
      ∃ m' e' h, roundWithAccuracy Format.binary32 s m e acc = .finite s m' e' h ∧
        Rounded (.finite s m' e' h) ∧ 0 < nearest m e acc ∧
        order m' e' = order (nearest m e acc) (target m e) := by
  have hmin : -149 ≤ target m e := le_max_right _ _
  obtain ⟨hge, hle⟩ := nearest_bounds m e acc
  have hfit : m / 2 ^ (target m e - e).toNat < 2 ^ 24 ∧
      (target m e = -149 ∨ 2 ^ 23 ≤ m / 2 ^ (target m e - e).toNat) := by
    rcases Nat.eq_zero_or_pos m with rfl | hm
    · have htarget := target_eq 0 e
      rw [order_zero] at htarget
      rw [Nat.zero_div]
      exact ⟨by decide, .inl (by omega)⟩
    · exact shift_bounds hm he
  have hexp : (shiftToTargetExponent Format.binary32 m e acc).2 = target m e := by
    rw [(shiftToTargetExponent_eq m e acc).2]
    omega
  unfold roundWithAccuracy nearest at *
  generalize shiftToTargetExponent Format.binary32 m e acc = first at *
  obtain ⟨em, t⟩ := first
  dsimp only at *
  subst hexp
  generalize em.roundedMantissa = r at *
  rcases Nat.eq_zero_or_pos r with rfl | hr
  · have hmant := (shiftToTargetExponent_eq 0 (target m e) .exact).1
    rw [Nat.zero_div] at hmant
    rw [dif_pos hmant]
    exact .inl ⟨rfl, rfl⟩
  · obtain ⟨hpos, hrounded, horder⟩ := shiftToTargetExponent_carry s hr (by omega) hmin
      (hfit.2.imp id fun h => h.trans hge)
    rw [dif_neg hpos.ne']
    exact .inr ⟨_, _, hpos, rfl, hrounded, hr, horder⟩

/-- **Rounding moves the leading bit up by one place at most.** A number is rounded to zero only if
it is less than the least positive number, and never if it is more than half of it. -/
theorem roundWithAccuracy_order (s : Sign) (acc : Accuracy) (he : e ≤ target m e) :
    (roundWithAccuracy Format.binary32 s m e acc = .zero s ∧ (0 < m → order m e < -149)) ∨
      ∃ m' e' h, roundWithAccuracy Format.binary32 s m e acc = .finite s m' e' h ∧
        Rounded (.finite s m' e' h) ∧ order m' e' ≤ max (order m e + 1) (-149) ∧
        (0 < m → order m e ≤ order m' e' ∧ -150 ≤ order m e) := by
  obtain ⟨hge, hle⟩ := nearest_bounds m e acc
  rcases roundWithAccuracy_nearest s acc he with
    ⟨heq, hzero⟩ | ⟨m', e', h, heq, hrounded, hpos, horder⟩
  · refine .inl ⟨heq, fun hm => ?_⟩
    by_contra hlow
    have := (order_div he hm (by omega)).1
    omega
  · refine .inr ⟨m', e', h, heq, hrounded, ?_⟩
    rw [horder]
    have htarget := target_eq m e
    rcases Nat.eq_zero_or_pos m with rfl | hm
    · rw [Nat.zero_div] at hle
      have hone : nearest 0 e acc = 1 := by omega
      rw [order_zero] at *
      rw [hone, order_one]
      omega
    · rcases lt_or_ge (order m e) (-149) with hlow | hhigh
      · have hone : nearest m e acc = 1 := le_antisymm (nearest_le_one hm hlow acc) hpos
        rw [hone, order_one, target_of_low hlow]
        refine ⟨by omega, fun _ => ⟨by omega, ?_⟩⟩
        by_contra hfar
        have := nearest_eq_zero hm (not_le.mp hfar) acc
        omega
      · obtain ⟨hdiv, hlead⟩ := order_div he hm hhigh
        obtain ⟨hlog, hlog'⟩ := log2_between hdiv hge hle
        unfold order at *
        omega

end Nearest

/-- A positive multiple of the least positive number does not lose its leading bit. -/
theorem round_order (s : Sign) {m : ℕ} {e : ℤ} (hm : 0 < m) (he : -149 ≤ e) :
    ∃ m' e' h, round Format.binary32 s m e = .finite s m' e' h ∧
      Rounded (.finite s m' e' h) ∧ order m e ≤ order m' e' := by
  have hround : round Format.binary32 s m e = roundWithAccuracy Format.binary32 s
      (m <<< (e - target m e).toNat) (e - (e - target m e).toNat) .exact := rfl
  have hlead := order_shiftLeft hm (e - target m e).toNat e
  have hpos : 0 < m <<< (e - target m e).toNat := Nat.shiftLeft_pos_iff.mpr hm
  have htarget : target (m <<< (e - target m e).toNat) (e - (e - target m e).toNat) =
      target m e := by
    rw [target_eq, hlead, ← target_eq]
  have hnonneg : e ≤ order m e := by
    unfold order
    omega
  rw [hround]
  rcases roundWithAccuracy_order s .exact (by rw [htarget]; omega) with
    ⟨-, hlow⟩ | ⟨m', e', h, heq, hrounded, -, hle⟩
  · have := hlow hpos
    omega
  · exact ⟨m', e', h, heq, hrounded, hlead ▸ (hle hpos).1⟩

/-- **A positive multiple of the least positive number is rounded to a positive number.** -/
theorem round_cases (s : Sign) {m : ℕ} {e : ℤ} (hm : 0 < m) (he : -149 ≤ e) :
    ∃ m' e' h, round Format.binary32 s m e = .finite s m' e' h ∧
      Rounded (.finite s m' e' h) := by
  obtain ⟨m', e', h, heq, hrounded, -⟩ := round_order s hm he
  exact ⟨m', e', h, heq, hrounded⟩

/-! ### Signs -/

/-- There is no minus sign. -/
def Plus : UnpackedFloat → Prop
  | .infinity s => s = .positive
  | .notANumber => True
  | .zero s => s = .positive
  | .finite s _ _ _ => s = .positive

lemma plus_roundWithAccuracy (m : ℕ) (e : ℤ) (acc : Accuracy) :
    Plus (roundWithAccuracy Format.binary32 .positive m e acc) := by
  rcases roundWithAccuracy_sign .positive m e acc with h | ⟨m', e', hm', h⟩
  all_goals
    rw [h]
    exact rfl

lemma plus_round (m : ℕ) (e : ℤ) : Plus (round Format.binary32 .positive m e) :=
  plus_roundWithAccuracy ..

theorem plus_mul_self (f : UnpackedFloat) : Plus (mul Format.binary32 f f) := by
  have hs (s : Sign) : s * s = .positive := by cases s <;> rfl
  cases f with
  | infinity s => exact hs s
  | notANumber => trivial
  | zero s => exact hs s
  | finite s m e hm =>
    show Plus (roundWithAccuracy Format.binary32 (s * s) (m * m) (e + e) .exact)
    rw [hs]
    exact plus_roundWithAccuracy ..

theorem plus_add_negZero {f : UnpackedFloat} (hf : Plus f) :
    Plus (add Format.binary32 (.zero .negative) f) := by
  cases f with
  | zero s =>
    obtain rfl : s = .positive := hf
    exact rfl
  | _ => exact hf

theorem plus_add {f g : UnpackedFloat} (hf : Plus f) (hg : Plus g) :
    Plus (add Format.binary32 f g) := by
  cases f with
  | notANumber => cases g <;> trivial
  | infinity s =>
    obtain rfl : s = .positive := hf
    cases g with
    | infinity s' =>
      obtain rfl : s' = .positive := hg
      exact rfl
    | notANumber => trivial
    | _ => exact rfl
  | zero s =>
    obtain rfl : s = .positive := hf
    cases g with
    | zero s' =>
      obtain rfl : s' = .positive := hg
      exact rfl
    | _ => exact hg
  | finite s m e hm =>
    obtain rfl : s = .positive := hf
    cases g with
    | finite s' m' e' hm' =>
      obtain rfl : s' = .positive := hg
      have hpos : 0 < m <<< (e - min e e').toNat := Nat.shiftLeft_pos_iff.mpr hm
      show Plus (normalize Format.binary32
        ((m <<< (e - min e e').toNat : ℕ) + (m' <<< (e' - min e e').toNat : ℕ)) (min e e') .positive)
      generalize m <<< (e - min e e').toNat = a at hpos ⊢
      generalize m' <<< (e' - min e e').toNat = b
      have hsum : (0 : ℤ) < a + b := by omega
      unfold Float.Model.UnpackedFloat.normalize
      rw [Std.compare_eq_gt.mpr hsum]
      exact plus_round ..
    | notANumber => trivial
    | _ => first | exact hg | exact rfl

theorem plus_sqrt {f : UnpackedFloat} (hf : Plus f) : Plus (sqrt Format.binary32 f) := by
  cases f with
  | notANumber => trivial
  | infinity s =>
    obtain rfl : s = .positive := hf
    exact rfl
  | zero s => exact hf
  | finite s m e hm =>
    obtain rfl : s = .positive := hf
    exact plus_roundWithAccuracy ..

end SemanticStore.Single
