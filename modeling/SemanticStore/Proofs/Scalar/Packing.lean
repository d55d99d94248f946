import SemanticStore.Embedding.Scalar
import SemanticStore.Proofs.Scalar.Rounding

/-!
# Bits of single-precision numbers

`Single.ofParts` is the number with a sign, an exponent field and a fraction field. The bits of a
number are its fields one behind the other, so unpacking undoes packing for what single precision can
hold (`Single.unpack_pack`), larger numbers become infinite (`Single.unpack_pack_large`), and numbers
without a minus sign are those without a sign bit (`Single.pack_lt_of_plus`, `Single.plus_unpack`).
-/

namespace SemanticStore.Single

open Float.Model (Format UnpackedFloat)
open Float.Model.UnpackedFloat

/-! ### Fields -/

/-- The number with this sign, exponent field and fraction field. -/
def ofParts (s : Sign) (e m : ℕ) : UnpackedFloat :=
  if e = 255 then if m = 0 then .infinity s else .notANumber
  else if e = 0 then if h : m = 0 then .zero s else .finite s m (-149) (Nat.pos_of_ne_zero h)
  else .finite s (2 ^ 23 + m) (e - 150) (by omega)

/-- The bits of these fields. -/
def joined (s : Sign) (e m : ℕ) : ℕ := s.toBitVec.toNat * 2 ^ 31 + e * 2 ^ 23 + m

lemma toNat_packComponents (s : Sign) (e : BitVec 8) (m : BitVec 23) :
    (packComponents Format.binary32 s e m).toNat = joined s e.toNat m.toNat := by
  unfold packComponents joined
  rw [BitVec.toNat_append, BitVec.toNat_append, ← Nat.shiftLeft_add_eq_or_of_lt m.isLt,
    ← Nat.shiftLeft_add_eq_or_of_lt e.isLt, Nat.shiftLeft_eq, Nat.shiftLeft_eq]
  omega

lemma toNat_unpackSign (b : BitVec 32) :
    (@unpackSign Format.binary32 b).toNat = b.toNat / 2 ^ 31 := by
  have := b.isLt
  simp [unpackSign, BitVec.extractLsb_toNat, Nat.shiftRight_eq_div_pow]
  omega

lemma toNat_unpackExponent (b : BitVec 32) :
    (@unpackExponent Format.binary32 b).toNat = b.toNat / 2 ^ 23 % 2 ^ 8 := by
  simp [unpackExponent, BitVec.extractLsb_toNat, Nat.shiftRight_eq_div_pow]

lemma toNat_unpackMantissa (b : BitVec 32) :
    (@unpackMantissa Format.binary32 b).toNat = b.toNat % 2 ^ 23 := by
  simp [unpackMantissa, BitVec.extractLsb_toNat]

/-- The sign of a word. -/
def signOf (n : ℕ) : Sign := if n < 2 ^ 31 then .positive else .negative

/-- **A word is unpacked by its fields.** -/
theorem unpack_eq (b : BitVec 32) :
    unpack Format.binary32 b =
      ofParts (signOf b.toNat) (b.toNat / 2 ^ 23 % 2 ^ 8) (b.toNat % 2 ^ 23) := by
  have hsign : Sign.ofBitVec (@unpackSign Format.binary32 b) = signOf b.toNat := by
    have := b.isLt
    have hzero : @unpackSign Format.binary32 b = 0#1 ↔ b.toNat < 2 ^ 31 := by
      rw [← BitVec.toNat_inj, toNat_unpackSign, BitVec.toNat_ofNat]
      omega
    unfold Sign.ofBitVec signOf
    simp only [hzero]
  have hones : @unpackExponent Format.binary32 b = (-1#8) ↔
      b.toNat / 2 ^ 23 % 2 ^ 8 = 255 := by
    rw [← BitVec.toNat_inj, toNat_unpackExponent]
    rfl
  have hzeros : @unpackExponent Format.binary32 b = 0#8 ↔
      b.toNat / 2 ^ 23 % 2 ^ 8 = 0 := by
    rw [← BitVec.toNat_inj, toNat_unpackExponent]
    rfl
  have hfraction : @unpackMantissa Format.binary32 b = 0#23 ↔ b.toNat % 2 ^ 23 = 0 := by
    rw [← BitVec.toNat_inj, toNat_unpackMantissa]
    rfl
  have hone : (1#1 ++ @unpackMantissa Format.binary32 b).toNat =
      2 ^ 23 + b.toNat % 2 ^ 23 := by
    rw [BitVec.toNat_append, ← Nat.shiftLeft_add_eq_or_of_lt (BitVec.isLt _), toNat_unpackMantissa]
    rfl
  unfold unpack ofParts
  dsimp only
  simp only [hsign, hones, hzeros, hfraction, hone, toNat_unpackExponent, toNat_unpackMantissa]
  split
  · rfl
  · split
    · rename_i he
      simp only [he]
      rfl
    · congr 1

lemma fields_joined (s : Sign) {e m : ℕ} (he : e < 2 ^ 8) (hm : m < 2 ^ 23) :
    signOf (joined s e m) = s ∧ joined s e m / 2 ^ 23 % 2 ^ 8 = e ∧ joined s e m % 2 ^ 23 = m := by
  unfold joined signOf
  cases s with
  | positive =>
    have hbit : Sign.positive.toBitVec.toNat = 0 := rfl
    rw [hbit, if_pos (by omega)]
    exact ⟨rfl, by omega, by omega⟩
  | negative =>
    have hbit : Sign.negative.toBitVec.toNat = 1 := rfl
    rw [hbit, if_neg (by omega)]
    exact ⟨rfl, by omega, by omega⟩

lemma unpack_packComponents (s : Sign) (e : BitVec 8) (m : BitVec 23) :
    unpack Format.binary32 (packComponents Format.binary32 s e m) =
      ofParts s e.toNat m.toNat := by
  obtain ⟨hs, he, hm⟩ := fields_joined s e.isLt m.isLt
  rw [unpack_eq, toNat_packComponents, hs, he, hm]

/-! ### Numbers that single precision can hold -/

theorem rounded_unpack (b : BitVec 32) : Rounded (unpack Format.binary32 b) := by
  rw [unpack_eq]
  have hfraction : b.toNat % 2 ^ 23 < 2 ^ 23 := Nat.mod_lt _ (by decide)
  have hexponent : b.toNat / 2 ^ 23 % 2 ^ 8 < 2 ^ 8 := Nat.mod_lt _ (by decide)
  unfold ofParts
  split
  · split <;> trivial
  · split
    · split
      · trivial
      · refine ⟨?_, ?_, ?_⟩ <;> omega
    · refine ⟨?_, ?_, ?_⟩ <;> omega

/-- The number is not too large. -/
def Held : UnpackedFloat → Prop
  | .finite _ _ e _ => e ≤ 104
  | _ => True

theorem held_unpack (b : BitVec 32) : Held (unpack Format.binary32 b) := by
  rw [unpack_eq]
  have hexponent : b.toNat / 2 ^ 23 % 2 ^ 8 < 2 ^ 8 := Nat.mod_lt _ (by decide)
  unfold ofParts
  split
  · split <;> trivial
  · split
    · split
      · trivial
      · show (-149 : ℤ) ≤ 104
        decide
    · show (_ : ℤ) ≤ 104
      omega

/-- **Unpacking undoes packing**, for numbers that single precision can hold. -/
theorem unpack_pack {f : UnpackedFloat} (hf : Rounded f) (hheld : Held f) :
    unpack Format.binary32 (pack Format.binary32 f) = f := by
  cases f with
  | infinity s => exact unpack_packComponents ..
  | notANumber => exact unpack_packComponents ..
  | zero s => exact unpack_packComponents ..
  | finite s m e hm =>
    obtain ⟨hfit, hmin, hfull⟩ := hf
    have hheld : e ≤ 104 := hheld
    obtain ⟨k, hk⟩ : ∃ k : ℕ, (k : ℤ) = e + 150 := ⟨(e + 150).toNat, by omega⟩
    have hbias : (e + (Format.binary32.exponentBias : ℕ) +
        (Format.binary32.mantissaBitsWithoutImplicit : ℕ)).toNat = k := by
      show (e + 127 + 23).toNat = k
      omega
    unfold pack
    dsimp only
    rw [hbias, if_neg (by show ¬ 256 ≤ k + 1; omega)]
    rcases Nat.lt_or_ge m (2 ^ 23) with hlow | hhigh
    · have he : e = -149 := by omega
      have hlog : m.log2 < 23 := (Nat.log2_lt hm.ne').mpr hlow
      rw [if_neg (by show ¬ m.log2 + 1 = 24; omega), unpack_packComponents]
      subst he
      have hfraction : (BitVec.ofNat 23 m).toNat = m := by
        rw [BitVec.toNat_ofNat, Nat.mod_eq_of_lt hlow]
      unfold ofParts
      simp [hfraction, hm.ne']
    · have hlog : m.log2 = 23 := (Nat.log2_eq_iff hm.ne').mpr ⟨hhigh, hfit⟩
      rw [if_pos (by show m.log2 + 1 = 24; omega), unpack_packComponents]
      have hfraction : 2 ^ 23 + (BitVec.ofNat 23 m).toNat = m := by
        rw [BitVec.toNat_ofNat]
        omega
      have hexponent : (BitVec.ofNat 8 k).toNat = k := by
        rw [BitVec.toNat_ofNat, Nat.mod_eq_of_lt (by omega)]
      have hkint : (k : ℤ) - 150 = e := by omega
      unfold ofParts
      rw [if_neg (by rw [hexponent]; omega), if_neg (by rw [hexponent]; omega)]
      simp only [hexponent, hfraction, hkint]

/-- Larger numbers become infinite. -/
theorem unpack_pack_large {s : Sign} {m : ℕ} {e : ℤ} (hm : 0 < m) (he : 104 < e) :
    unpack Format.binary32 (pack Format.binary32 (.finite s m e hm)) = .infinity s := by
  have hbias : 255 ≤ (e + (Format.binary32.exponentBias : ℕ) +
      (Format.binary32.mantissaBitsWithoutImplicit : ℕ)).toNat := by
    show 255 ≤ (e + 127 + 23).toNat
    omega
  unfold pack
  dsimp only
  rw [if_pos (Nat.succ_le_succ hbias)]
  exact unpack_packComponents ..

/-! ### The sign bit -/

lemma packComponents_lt (e : BitVec 8) (m : BitVec 23) :
    (packComponents Format.binary32 .positive e m).toNat < 2 ^ 31 := by
  have := e.isLt
  have := m.isLt
  rw [toNat_packComponents]
  show 0 * 2 ^ 31 + _ + _ < _
  omega

theorem pack_lt_of_plus {f : UnpackedFloat} (hf : Plus f) :
    (pack Format.binary32 f).toNat < 2 ^ 31 := by
  cases f with
  | infinity s =>
    obtain rfl : s = .positive := hf
    exact packComponents_lt ..
  | notANumber => exact packComponents_lt ..
  | zero s =>
    obtain rfl : s = .positive := hf
    exact packComponents_lt ..
  | finite s m e hm =>
    obtain rfl : s = .positive := hf
    unfold pack
    dsimp only
    split
    · exact packComponents_lt ..
    · split
      · exact packComponents_lt ..
      · exact packComponents_lt ..

theorem plus_unpack {b : BitVec 32} (hb : b.toNat < 2 ^ 31) : Plus (unpack Format.binary32 b) := by
  have hs : signOf b.toNat = .positive := if_pos hb
  rw [unpack_eq, hs]
  unfold ofParts
  split
  · split <;> trivial
  · split
    · split <;> trivial
    · trivial

end SemanticStore.Single
