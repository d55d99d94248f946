import SemanticStore.Proofs.Scalar.Binade
import SemanticStore.Proofs.Scalar.Special

/-!
# Magnitudes of scalars

`Single.Amount` says of a number that it is plus zero, positive, or plus infinity: squares are, and
sums and roots of such numbers. `Single.Reaches` says that a number is infinite or leads at a given
place or above; a sum reaches what one of its terms reaches.
-/

namespace SemanticStore

open Float.Model (Format UnpackedFloat)

namespace Single

/-- Plus zero, a positive number, or plus infinity. -/
inductive Amount : UnpackedFloat → Prop
  | zero : Amount (.zero .positive)
  | finite (m : ℕ) (e : ℤ) (h : 0 < m) : Amount (.finite .positive m e h)
  | infinity : Amount (.infinity .positive)

/-- Infinite, or with the leading bit at this place or above. -/
def Reaches (o : ℤ) : UnpackedFloat → Prop
  | .infinity _ => True
  | .finite _ m e _ => o ≤ order m e
  | _ => False

variable {f g : UnpackedFloat} {s : UnpackedFloat.Sign} {m : ℕ} {e o : ℤ} {h : 0 < m}

lemma Amount.plus (hf : Amount f) : Plus f := by
  cases hf <;> exact rfl

/-- What fits single precision is not too large just if its leading bit is at place 127 or below. -/
lemma held_iff (hf : Rounded (.finite s m e h)) : Held (.finite s m e h) ↔ order m e ≤ 127 := by
  obtain ⟨hfit, hmin, hfull⟩ := hf
  have hlog : m.log2 < 24 := (Nat.log2_lt h.ne').mpr hfit
  show e ≤ 104 ↔ _
  unfold order
  rcases hfull with rfl | hfull
  · omega
  · have : 23 ≤ m.log2 := (Nat.le_log2 h.ne').mpr hfull
    omega

lemma order_ge (hf : Rounded (.finite s m e h)) : -149 ≤ order m e := by
  have := hf.2.1
  unfold order
  omega

theorem amount_add (hf : Amount f) (hg : Amount g) (hfr : Rounded f) (hgr : Rounded g) :
    Rounded (UnpackedFloat.add Format.binary32 f g) ∧
      Amount (UnpackedFloat.add Format.binary32 f g) ∧
      ∀ o, Reaches o f ∨ Reaches o g → Reaches o (UnpackedFloat.add Format.binary32 f g) := by
  cases hf with
  | zero =>
    cases hg with
    | zero => exact ⟨trivial, .zero, fun o ho => ho.elim id id⟩
    | finite m e h => exact ⟨hgr, .finite m e h, fun o ho => ho.elim False.elim id⟩
    | infinity => exact ⟨trivial, .infinity, fun _ _ => trivial⟩
  | infinity => cases hg <;> exact ⟨trivial, .infinity, fun _ _ => trivial⟩
  | finite m e h =>
    cases hg with
    | zero => exact ⟨hfr, .finite m e h, fun o ho => ho.elim id False.elim⟩
    | infinity => exact ⟨trivial, .infinity, fun _ _ => trivial⟩
    | finite m' e' h' =>
      obtain ⟨_, _, _, heq, hrounded, hle, hle'⟩ := add_order h h' hfr.2.1 hgr.2.1
      rw [heq]
      exact ⟨hrounded, .finite .., fun o ho => ho.elim hle.trans' hle'.trans'⟩

end Single

namespace Scalar

open Single

variable {x y : Scalar} {s : UnpackedFloat.Sign} {m : ℕ} {e o : ℤ} {h : 0 < m}

lemma rounded_value (x : Scalar) : Rounded x.value := rounded_unpack _

/-- The leading bit of a scalar. -/
lemma order_bounds (hx : x.value = .finite s m e h) : -149 ≤ order m e ∧ order m e ≤ 127 := by
  have hr := rounded_value x
  have hh : Held x.value := held_unpack _
  rw [hx] at hr hh
  exact ⟨order_ge hr, (held_iff hr).mp hh⟩

lemma value_pack_finite (hf : Rounded (.finite s m e h)) : (pack (.finite s m e h)).value =
    if order m e ≤ 127 then .finite s m e h else .infinity s := by
  split
  · exact value_pack hf ((held_iff hf).mpr ‹_›)
  · rename_i hlarge
    have he : 104 < e := by
      by_contra hle
      exact hlarge ((held_iff hf).mp (not_lt.mp hle))
    exact unpack_pack_large h he

lemma value_pack_zero (s : UnpackedFloat.Sign) : (pack (.zero s)).value = .zero s :=
  value_pack trivial trivial

lemma value_pack_infinity : (pack (.infinity .positive)).value = .infinity .positive :=
  value_pack trivial trivial

/-- Packing an amount gives an amount that reaches as far. -/
lemma amount_pack {f : UnpackedFloat} (hr : Rounded f) (hf : Amount f) :
    Amount (pack f).value ∧ ∀ o, Reaches o f → Reaches o (pack f).value := by
  cases hf with
  | zero =>
    rw [value_pack_zero]
    exact ⟨.zero, fun _ => id⟩
  | infinity =>
    rw [value_pack_infinity]
    exact ⟨.infinity, fun _ => id⟩
  | finite m e h =>
    rw [value_pack_finite hr]
    split
    · exact ⟨.finite m e h, fun _ => id⟩
    · exact ⟨.infinity, fun _ _ => trivial⟩

/-! ### Signs -/

theorem unsigned_iff_plus (hn : x.value ≠ .notANumber) : x.Unsigned ↔ Plus x.value := by
  refine ⟨Unsigned.plus, fun hp => ?_⟩
  by_contra hx
  have hs : signOf x.bits.toBitVec.toNat = .negative := if_neg hx
  unfold value at hn hp
  rw [unpack_eq, hs] at hn hp
  unfold ofParts at hn hp
  split_ifs at hn hp
  · cases hp
  · exact hn rfl
  · cases hp
  · cases hp
  · cases hp

lemma number_of_amount (h : Amount x.value) : x.Unsigned ∧ x.isNaN = false := by
  have hn : x.value ≠ .notANumber := by
    intro hv
    rw [hv] at h
    cases h
  refine ⟨(unsigned_iff_plus hn).mpr h.plus, ?_⟩
  rw [← Bool.not_eq_true, isNaN_iff]
  exact hn

/-! ### Arithmetic -/

theorem amount_add (hx : Amount x.value) (hy : Amount y.value) :
    Amount (x + y).value ∧
      ∀ o, Reaches o x.value ∨ Reaches o y.value → Reaches o (x + y).value := by
  obtain ⟨hrounded, hamount, hreaches⟩ :=
    Single.amount_add hx hy (rounded_value x) (rounded_value y)
  obtain ⟨hpacked, hkept⟩ := amount_pack hrounded hamount
  rw [add_eq]
  exact ⟨hpacked, fun o ho => hkept o (hreaches o ho)⟩

/-- An amount is kept when it is added to minus zero. -/
lemma value_negZero_add (hx : Amount x.value) : (negZero + x).value = x.value := by
  have hsum : UnpackedFloat.add Format.binary32 (.zero .negative) x.value = x.value := by
    generalize x.value = f at hx
    cases hx <;> rfl
  rw [add_eq, value_negZero, hsum]
  exact value_pack (rounded_value x) (held_unpack _)

/-- The square of a number that is not infinite is plus zero, or it leads twice as high. -/
theorem square_cases (hx : x.value = .finite s m e h) :
    ((x * x).value = .zero .positive ∧ order m e ≤ -75) ∨
      Amount (x * x).value ∧ Reaches (2 * order m e) (x * x).value ∧ -75 ≤ order m e := by
  have hr := rounded_value x
  rw [hx] at hr
  rw [mul_eq, hx]
  rcases mul_self_order s h hr with ⟨heq, hlow⟩ | ⟨m', e', h', heq, hrounded, hle, hlow⟩
  · rw [heq, value_pack_zero]
    exact .inl ⟨rfl, hlow⟩
  · obtain ⟨hamount, hreaches⟩ := amount_pack hrounded (.finite m' e' h')
    rw [heq]
    exact .inr ⟨hamount, hreaches _ hle, hlow⟩

lemma value_mul_zero (hx : x.value = .zero s) : (x * x).value = .zero .positive := by
  rw [mul_eq, hx]
  cases s <;> exact value_pack_zero .positive

/-- The root of a positive number leads at half the place, or one above. -/
theorem sqrt_finite (hx : x.value = .finite .positive m e h) :
    ∃ m' e' h', x.sqrt.value = .finite .positive m' e' h' ∧ order m e / 2 ≤ order m' e' ∧
      order m' e' ≤ order m e / 2 + 1 := by
  have hr := rounded_value x
  have hbounds := order_bounds hx
  rw [hx] at hr
  obtain ⟨m', e', h', heq, hrounded, hle, hge⟩ := sqrt_order h hr.2.1
  refine ⟨m', e', h', ?_, hle, hge⟩
  rw [sqrt_eq, hx, heq, value_pack_finite hrounded, if_pos (by omega)]

/-- The quotient of a number and a positive number that does not lead below it. -/
theorem div_finite {n : ℕ} {i : ℤ} {hn : 0 < n} (hx : x.value = .finite s m e h)
    (hy : y.value = .finite .positive n i hn) (hle : order m e ≤ order n i) :
    ((x / y).value = .zero s ∧ order m e - order n i < -148) ∨
      ∃ m' e' h', (x / y).value = .finite s m' e' h' := by
  rw [div_eq, hx, hy]
  rcases div_order s h hn hle with ⟨heq, hlow⟩ | ⟨m', e', h', heq, hrounded, hlow⟩
  · rw [heq, value_pack_zero]
    exact .inl ⟨rfl, hlow⟩
  · rw [heq, value_pack_finite hrounded, if_pos (by omega)]
    exact .inr ⟨m', e', h', rfl⟩

end Scalar

end SemanticStore
