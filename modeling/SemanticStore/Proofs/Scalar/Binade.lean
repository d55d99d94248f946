import SemanticStore.Proofs.Scalar.Rounding

/-!
# Leading bits in arithmetic

Rounding keeps the order of a number or raises it by one, so the orders of squares, sums, roots and
quotients follow from those of their arguments. That is all it takes to rule out overflow and
underflow where the orders leave room.
-/

namespace SemanticStore.Single

open Float.Model (Format UnpackedFloat)
open Float.Model.UnpackedFloat

lemma log2_mul_self {m : ℕ} (hm : 0 < m) :
    2 * m.log2 ≤ (m * m).log2 ∧ (m * m).log2 ≤ 2 * m.log2 + 1 := by
  have hlow : 2 ^ m.log2 ≤ m := Nat.log2_self_le hm.ne'
  have hhigh : m < 2 ^ (m.log2 + 1) := Nat.lt_log2_self
  have hsq : m * m ≠ 0 := (Nat.mul_pos hm hm).ne'
  refine ⟨(Nat.le_log2 hsq).mpr ?_, Nat.lt_succ_iff.mp ((Nat.log2_lt hsq).mpr ?_)⟩
  · rw [two_mul, pow_add]
    exact Nat.mul_le_mul hlow hlow
  · have heq : 2 ^ (2 * m.log2 + 1 + 1) = 2 ^ (m.log2 + 1) * 2 ^ (m.log2 + 1) := by
      rw [← pow_add]
      congr 1
      omega
    rw [heq]
    exact Nat.mul_lt_mul'' hhigh hhigh

/-- A square is zero only for a number whose leading bit is below that of the root of the least
positive number. -/
theorem mul_self_order (s : Sign) {m : ℕ} {e : ℤ} (hm : 0 < m) (hf : Rounded (.finite s m e hm)) :
    (mul Format.binary32 (.finite s m e hm) (.finite s m e hm) = .zero .positive ∧
      order m e ≤ -75) ∨
    ∃ m' e' h, mul Format.binary32 (.finite s m e hm) (.finite s m e hm) =
        .finite .positive m' e' h ∧
      Rounded (.finite .positive m' e' h) ∧ 2 * order m e ≤ order m' e' ∧ -75 ≤ order m e := by
  obtain ⟨-, hmin, hfull⟩ := hf
  obtain ⟨hlow, hhigh⟩ := log2_mul_self hm
  have hsign : s * s = .positive := by cases s <;> rfl
  have hmul : mul Format.binary32 (.finite s m e hm) (.finite s m e hm) =
      roundWithAccuracy Format.binary32 (s * s) (m * m) (e + e) .exact := rfl
  have hpos : 0 < m * m := Nat.mul_pos hm hm
  have he : e + e ≤ target (m * m) (e + e) := by
    unfold target
    rcases hfull with hfull | hfull
    · omega
    · have : 23 ≤ m.log2 := (Nat.le_log2 hm.ne').mpr hfull
      omega
  rw [hmul, hsign]
  rcases roundWithAccuracy_order .positive .exact he with
    ⟨heq, hzero⟩ | ⟨m', e', h, heq, hrounded, -, hle⟩
  · have := hzero hpos
    unfold order at *
    exact .inl ⟨heq, by omega⟩
  · have := hle hpos
    unfold order at *
    exact .inr ⟨m', e', h, heq, hrounded, by omega, by omega⟩

/-- A sum of positive numbers leads where the larger one does, or above. -/
theorem add_order {m₁ m₂ : ℕ} {e₁ e₂ : ℤ} (h₁ : 0 < m₁) (h₂ : 0 < m₂) (he₁ : -149 ≤ e₁)
    (he₂ : -149 ≤ e₂) :
    ∃ m e h, add Format.binary32 (.finite .positive m₁ e₁ h₁) (.finite .positive m₂ e₂ h₂) =
        .finite .positive m e h ∧
      Rounded (.finite .positive m e h) ∧ order m₁ e₁ ≤ order m e ∧ order m₂ e₂ ≤ order m e := by
  have hmin : -149 ≤ min e₁ e₂ := le_min he₁ he₂
  have hlead₁ := order_shiftLeft h₁ (e₁ - min e₁ e₂).toNat e₁
  have hlead₂ := order_shiftLeft h₂ (e₂ - min e₁ e₂).toNat e₂
  have hexp₁ : e₁ - (e₁ - min e₁ e₂).toNat = min e₁ e₂ := by omega
  have hexp₂ : e₂ - (e₂ - min e₁ e₂).toNat = min e₁ e₂ := by omega
  rw [hexp₁] at hlead₁
  rw [hexp₂] at hlead₂
  have hadd : add Format.binary32 (.finite .positive m₁ e₁ h₁) (.finite .positive m₂ e₂ h₂) =
      normalize Format.binary32 ((m₁ <<< (e₁ - min e₁ e₂).toNat : ℕ) +
        (m₂ <<< (e₂ - min e₁ e₂).toNat : ℕ)) (min e₁ e₂) .positive := rfl
  have hpos₁ : 0 < m₁ <<< (e₁ - min e₁ e₂).toNat := Nat.shiftLeft_pos_iff.mpr h₁
  rw [hadd]
  generalize m₁ <<< (e₁ - min e₁ e₂).toNat = a at hlead₁ hpos₁ ⊢
  generalize m₂ <<< (e₂ - min e₁ e₂).toNat = b at hlead₂ ⊢
  have hsum : (0 : ℤ) < a + b := by omega
  unfold Float.Model.UnpackedFloat.normalize
  rw [Std.compare_eq_gt.mpr hsum]
  have hnat : ((a : ℤ) + b).toNat = a + b := by omega
  obtain ⟨m, e, h, heq, hrounded, hle⟩ :=
    round_order .positive (m := a + b) (by omega : 0 < a + b) hmin
  have hle₁ := log2_mono (show a ≤ a + b by omega)
  have hle₂ := log2_mono (show b ≤ a + b by omega)
  refine ⟨m, e, h, ?_, hrounded, ?_⟩
  · dsimp only
    rw [hnat, heq]
  · unfold order at *
    omega

lemma log2_sqrt {n : ℕ} (hn : 0 < n) : (Nat.sqrt n).log2 = n.log2 / 2 := by
  have hlow : 2 ^ n.log2 ≤ n := Nat.log2_self_le hn.ne'
  have hhigh : n < 2 ^ (n.log2 + 1) := Nat.lt_log2_self
  rw [Nat.log2_eq_iff (Nat.sqrt_pos.mpr hn).ne', Nat.le_sqrt', Nat.sqrt_lt', ← pow_mul, ← pow_mul]
  constructor
  · exact (Nat.pow_le_pow_right (by decide) (by omega)).trans hlow
  · exact hhigh.trans_le (Nat.pow_le_pow_right (by decide) (by omega))

/-- The root of a positive number leads at half the place, or one above. -/
theorem sqrt_order {m : ℕ} {e : ℤ} (hm : 0 < m) (hmin : -149 ≤ e) :
    ∃ m' e' h, sqrt Format.binary32 (.finite .positive m e hm) = .finite .positive m' e' h ∧
      Rounded (.finite .positive m' e' h) ∧ order m e / 2 ≤ order m' e' ∧
      order m' e' ≤ order m e / 2 + 1 := by
  obtain ⟨t, ht⟩ : ∃ t : ℤ, t = min (e / 2) (max ((m.log2 + 1 + e + 1) / 2 - 24) (-149)) := ⟨_, rfl⟩
  obtain ⟨acc, hsqrt⟩ : ∃ acc, sqrt Format.binary32 (.finite .positive m e hm) =
      roundWithAccuracy Format.binary32 .positive (Nat.sqrt (m <<< (e - 2 * t).toNat)) t acc := by
    subst ht
    exact ⟨_, rfl⟩
  have hshift : 0 < m <<< (e - 2 * t).toNat := Nat.shiftLeft_pos_iff.mpr hm
  have hlog := log2_sqrt hshift
  rw [log2_shiftLeft hm] at hlog
  have hpos := Nat.sqrt_pos.mpr hshift
  rw [hsqrt]
  generalize Nat.sqrt (m <<< (e - 2 * t).toNat) = root at hlog hpos ⊢
  have hlead : order root t = order m e / 2 := by
    unfold order
    omega
  have hlow : -149 ≤ order m e := by
    unfold order
    omega
  have htarget : t ≤ target root t := by
    rw [target_eq, hlead]
    unfold order
    omega
  rcases roundWithAccuracy_order .positive acc htarget with
    ⟨-, hzero⟩ | ⟨m', e', h, heq, hrounded, hhigh, hle⟩
  · have := hzero hpos
    omega
  · have := hle hpos
    exact ⟨m', e', h, heq, hrounded, by omega, by omega⟩

lemma log2_div {n : ℕ} (hn : 0 < n) (m : ℕ) :
    m.log2 - (n.log2 + 1) ≤ (m / n).log2 ∧ (m / n).log2 ≤ m.log2 - n.log2 := by
  have hlow : 2 ^ n.log2 ≤ n := Nat.log2_self_le hn.ne'
  have hhigh : n < 2 ^ (n.log2 + 1) := Nat.lt_log2_self
  rw [← log2_div_two_pow, ← log2_div_two_pow]
  exact ⟨log2_mono (Nat.div_le_div_left hhigh.le hn),
    log2_mono (Nat.div_le_div_left hlow (Nat.two_pow_pos _))⟩

/-- A number over one that does not lead below it: the quotient is at most one or so, and it is zero
only if the one leads far above the other. -/
theorem div_order (s : Sign) {m n : ℕ} {e i : ℤ} (hm : 0 < m) (hn : 0 < n)
    (hle : order m e ≤ order n i) :
    (div Format.binary32 (.finite s m e hm) (.finite .positive n i hn) = .zero s ∧
      order m e - order n i < -148) ∨
    ∃ m' e' h, div Format.binary32 (.finite s m e hm) (.finite .positive n i hn) =
        .finite s m' e' h ∧
      Rounded (.finite s m' e' h) ∧ order m' e' ≤ 1 := by
  obtain ⟨t, ht⟩ : ∃ t : ℤ,
    t = min (e - i) (max ((m.log2 + 1 + e) - (n.log2 + 1 + i) - 24) (-149)) := ⟨_, rfl⟩
  obtain ⟨acc, hdiv⟩ : ∃ acc, div Format.binary32 (.finite s m e hm) (.finite .positive n i hn) =
      roundWithAccuracy Format.binary32 s (m <<< (e - i - t).toNat / n) t acc := by
    subst ht
    cases s <;> exact ⟨_, rfl⟩
  have hshift : 0 < m <<< (e - i - t).toNat := Nat.shiftLeft_pos_iff.mpr hm
  have hlog := log2_shiftLeft hm (e - i - t).toNat
  rw [hdiv]
  generalize m <<< (e - i - t).toNat = a at hshift hlog ⊢
  obtain ⟨hlow, hhigh⟩ := log2_div hn a
  have hpos (h : n.log2 < a.log2) : 0 < a / n := by
    refine Nat.div_pos (Nat.lt_log2_self.le.trans ?_) hn
    exact (Nat.pow_le_pow_right (by decide) h).trans (Nat.log2_self_le hshift.ne')
  generalize a / n = q at hlow hhigh hpos ⊢
  have htarget : t ≤ target q t := by
    unfold target
    omega
  unfold order at *
  rcases roundWithAccuracy_order s acc htarget with
    ⟨heq, hzero⟩ | ⟨m', e', h, heq, hrounded, hbound, -⟩
  · refine .inl ⟨heq, ?_⟩
    by_contra hnear
    have := hzero (hpos (by omega))
    unfold order at this
    omega
  · refine .inr ⟨m', e', h, heq, hrounded, ?_⟩
    unfold order at hbound
    omega

end SemanticStore.Single
