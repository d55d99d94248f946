import SemanticStore.Proofs.Json.Numeral

/-!
# Numbers that are not integers

`Numeral.IsReal` says which double a numeral stands for, without the reader: of its digits the leading
ones that fit 64 bits are kept, and the double nearest to these is multiplied or divided by a power of
ten. A numeral for which this gives infinity stands for no double. The arithmetic is that of doubles,
rounded to nearest.

A numeral has a double for value just if it stands for it (`Numeral.value?_eq_real_iff`).
-/

namespace SemanticStore

lemma WordInt.ofInt?_neg_eq_none_iff {m : ℕ} : ofInt? (-(m : ℤ)) = none ↔ 2 ^ 63 < m := by
  unfold ofInt?
  split
  · exact iff_of_false (by simp) (by omega)
  · exact iff_of_true rfl (by omega)

namespace Json.Numeral

open Decimal

/-! ### What a numeral stands for -/

/-- The digits that are kept behind the number `acc`: as many of the first ones as leave it below
`2 ^ 64`. -/
structure Keeps (acc : ℕ) (ds kept : List ℕ) : Prop where
  leading : kept <+: ds
  fits : ofDigits acc kept < 2 ^ 64
  longest : ∀ d, kept ++ [d] <+: ds → 2 ^ 64 ≤ ofDigits acc (kept ++ [d])

/-- The exponent that is written, or zero. -/
def power (n : Numeral) : ℤ :=
  match n.exponent with
  | none => 0
  | some (negative, ds) => if negative then -(ofDigits 0 ds : ℤ) else ofDigits 0 ds

/-- `y` is what is left of `x` where it is divided by `10 ^ k`. No double is as large as `10 ^ 309`, so a
larger power is divided by in steps, as long as there is anything left. -/
inductive Divided : Float → ℕ → Float → Prop
  | last {x : Float} {k : ℕ} (hk : k ≤ 308) : Divided x k (x / Float.ofScientific 1 false k)
  | step {x y : Float} {k : ℕ} (hx : (x == 0.0) = false)
      (h : Divided (x / Float.ofScientific 1 false 308) k y) (hk : 0 < k) : Divided x (308 + k) y
  | gone {x : Float} {k : ℕ} (hx : (x == 0.0) = true) (hk : 308 < k) : Divided x k x

/-- The double of `m * 10 ^ e`, from the doubles nearest to `m` and to the power of ten. There is none
if the product is infinite. -/
inductive Scaled (m : ℕ) : ℤ → Float → Prop
  | up {k : ℕ} (hk : k ≤ 308)
      (h : (Float.ofNat m * Float.ofScientific 1 false k).isInf = false) :
      Scaled m k (Float.ofNat m * Float.ofScientific 1 false k)
  | zero {k : ℕ} (hm : m = 0) (hk : 308 < k) : Scaled m k 0.0
  | down {k : ℕ} {x : Float} (hk : 0 < k) (hx : Divided (Float.ofNat m) k x) : Scaled m (-k) x

/-- The numeral stands for this double. -/
inductive IsReal (n : Numeral) : Float → Prop
  /-- a zero with a sign, or a negative integer that does not fit a word -/
  | negative (hf : n.fraction = none) (he : n.exponent = none) (hn : n.negative = true)
      (hfits : ofDigits 0 n.whole < 2 ^ 64)
      (hword : ofDigits 0 n.whole = 0 ∨ 2 ^ 63 < ofDigits 0 n.whole) :
      IsReal n (-Float.ofNat (ofDigits 0 n.whole))
  /-- a number with a fraction, with an exponent or with digits that are not kept: each of these digits
  is one more power of ten -/
  | decimal {whole fraction : List ℕ} {x : Float} (hw : Keeps 0 n.whole whole)
      (hf : Keeps (ofDigits 0 whole) (n.fraction.getD []) fraction)
      (hn : n.fraction ≠ none ∨ n.exponent ≠ none ∨ whole ≠ n.whole) (he : n.power.natAbs < 2 ^ 31)
      (hx : Scaled (ofDigits 0 (whole ++ fraction))
        (n.whole.length - whole.length - fraction.length + n.power) x) :
      IsReal n (if n.negative then -x else x)
  /-- an exponent of more than 31 bits leaves only zero -/
  | vast {whole fraction : List ℕ} (hw : Keeps 0 n.whole whole)
      (hf : Keeps (ofDigits 0 whole) (n.fraction.getD []) fraction) (he : 2 ^ 31 ≤ n.power.natAbs)
      (hx : ofDigits 0 (whole ++ fraction) = 0 ∨ n.power < 0) :
      IsReal n (if n.negative then -0.0 else 0.0)

/-! ### Digits that are kept -/

variable {acc m d k : ℕ} {ds kept : List ℕ} {e : ℤ} {x y : Float} {n : Numeral}

lemma keeps_cons_iff : Keeps acc (d :: ds) kept ↔
    (kept = [] ∧ acc < 2 ^ 64 ∧ 2 ^ 64 ≤ acc * 10 + d) ∨
      ∃ rest, kept = d :: rest ∧ Keeps (acc * 10 + d) ds rest := by
  constructor
  · rintro ⟨hleading, hfits, hlongest⟩
    cases kept with
    | nil => exact .inl ⟨rfl, hfits, hlongest d (by simp)⟩
    | cons d' rest =>
      obtain ⟨rfl, hrest⟩ := List.cons_prefix_cons.mp hleading
      refine .inr ⟨rest, rfl, hrest, hfits, fun a ha => ?_⟩
      exact hlongest a (List.cons_prefix_cons.mpr ⟨rfl, ha⟩)
  · rintro (⟨rfl, hfits, hlarge⟩ | ⟨rest, rfl, hleading, hfits, hlongest⟩)
    · refine ⟨List.nil_prefix, hfits, fun a ha => ?_⟩
      obtain ⟨rfl, -⟩ := List.cons_prefix_cons.mp ha
      exact hlarge
    · refine ⟨List.cons_prefix_cons.mpr ⟨rfl, hleading⟩, hfits, fun a ha => ?_⟩
      exact hlongest a (List.cons_prefix_cons.mp ha).2

theorem exists_keeps (ds : List ℕ) (hacc : acc < 2 ^ 64) : ∃ kept, Keeps acc ds kept := by
  induction ds generalizing acc with
  | nil => exact ⟨[], List.nil_prefix, hacc, fun d hd => by simp at hd⟩
  | cons d ds ih =>
    by_cases hd : acc * 10 + d < 2 ^ 64
    · obtain ⟨kept, hkept⟩ := ih hd
      exact ⟨d :: kept, keeps_cons_iff.mpr (.inr ⟨kept, rfl, hkept⟩)⟩
    · exact ⟨[], keeps_cons_iff.mpr (.inl ⟨rfl, hacc, not_lt.mp hd⟩)⟩

theorem absorb_of_keeps (h : Keeps acc ds kept) :
    absorb acc ds = (ofDigits acc kept, ds.length - kept.length) := by
  induction ds generalizing acc kept with
  | nil =>
    obtain rfl := List.prefix_nil.mp h.leading
    rfl
  | cons d ds ih =>
    rcases keeps_cons_iff.mp h with ⟨rfl, -, hlarge⟩ | ⟨rest, rfl, hrest⟩
    · have hnot : ¬ acc * 10 + d < 0x10000000000000000 := not_lt.mpr hlarge
      rw [absorb, if_neg hnot]
      rfl
    · have hlt : acc * 10 + d < 0x10000000000000000 := (le_ofDigits _ rest).trans_lt hrest.fits
      rw [absorb, if_pos hlt, ih hrest, List.length_cons, List.length_cons, Nat.add_sub_add_right]
      rfl

/-! ### Powers of ten -/

theorem scaleDown_eq_iff : scaleDown x k = y ↔ Divided x k y := by
  constructor
  · rintro rfl
    induction k using Nat.strong_induction_on generalizing x with
    | _ k ih =>
      rw [scaleDown]
      split
      · rename_i hk
        exact .last hk
      · rename_i hk
        split
        · rename_i hx
          exact .gone hx (not_le.mp hk)
        · rename_i hx
          obtain ⟨j, rfl, hj⟩ : ∃ j, k = 308 + j ∧ 0 < j := ⟨k - 308, by omega, by omega⟩
          rw [Nat.add_sub_cancel_left]
          exact .step (eq_false_of_ne_true hx) (ih j (by omega)) hj
  · intro h
    induction h with
    | last hk => rw [scaleDown, if_pos hk]; rfl
    | step hx _ hk ih =>
      rw [scaleDown, if_neg (by omega), if_neg (by simp [hx]), Nat.add_sub_cancel_left]
      exact ih
    | gone hx hk => rw [scaleDown, if_neg (not_le.mpr hk), if_pos hx]

theorem scaled?_eq_some_iff : scaled? m e = some x ↔ Scaled m e x := by
  unfold scaled?
  dsimp only
  constructor
  · intro h
    split at h
    · rename_i he
      obtain ⟨k, rfl⟩ := Int.exists_eq_neg_ofNat he.le
      rw [Int.natAbs_neg, Int.natAbs_natCast, Option.some.injEq, scaleDown_eq_iff] at h
      exact .down (by omega) h
    · rename_i he
      obtain ⟨k, rfl⟩ := Int.eq_ofNat_of_zero_le (not_lt.mp he)
      split at h
      · rename_i hk
        split at h
        · cases h
        · rename_i hfinite
          cases h
          exact .up (by omega) (eq_false_of_ne_true hfinite)
      · rename_i hk
        split at h
        · rename_i hm
          cases h
          subst hm
          exact .zero rfl (by omega)
        · cases h
  · intro h
    cases h with
    | up hk hfinite =>
      rw [if_neg (by omega), if_pos (by omega)]
      exact if_neg (ne_true_of_eq_false hfinite)
    | zero hm hk =>
      subst hm
      rw [if_neg (by omega), if_neg (by omega), if_pos rfl]
      rfl
    | down hk hx =>
      rw [if_pos (by omega), Int.natAbs_neg, Int.natAbs_natCast, scaleDown_eq_iff.mpr hx]

/-! ### The value of a numeral -/

lemma power_of_none (h : n.exponent = none) : n.power = 0 := by
  unfold power
  rw [h]

lemma power_of_some {down : Bool} (h : n.exponent = some (down, ds)) :
    n.power = if down then -(ofDigits 0 ds : ℤ) else ofDigits 0 ds := by
  unfold power
  rw [h]

lemma natAbs_power {down : Bool} (h : n.exponent = some (down, ds)) :
    n.power.natAbs = ofDigits 0 ds := by
  rw [power_of_some h]
  cases down with
  | true => exact Int.natAbs_neg _
  | false => rfl

section Parts

variable {whole fraction : List ℕ}

lemma Keeps.eq_of_length (h : Keeps acc ds kept) (hlength : ds.length - kept.length = 0) :
    kept = ds :=
  h.leading.eq_of_length_le (Nat.sub_eq_zero_iff_le.mp hlength)

/-- The value of a number that is no integer, from the digits that are kept. -/
lemma value?_of_keeps (hw : Keeps 0 n.whole whole)
    (hf : Keeps (ofDigits 0 whole) (n.fraction.getD []) fraction)
    (hn : n.fraction ≠ none ∨ n.exponent ≠ none ∨ whole ≠ n.whole) :
    n.value? = if 2 ^ 31 ≤ n.power.natAbs then
        if ofDigits 0 (whole ++ fraction) = 0 ∨ n.power < 0 then some (signed n.negative 0.0) else none
      else (scaled? (ofDigits 0 (whole ++ fraction))
        (n.whole.length - whole.length - fraction.length + n.power)).map (signed n.negative) := by
  have hwhole := hw.leading.length_le
  have hfraction := hf.leading.length_le
  -- without a fraction and an exponent, some digit is left over
  have hdropped : n.fraction = none → n.exponent = none → n.whole.length - whole.length ≠ 0 := by
    intro hfraction hexponent hzero
    rcases hn with h | h | h
    · exact h hfraction
    · exact h hexponent
    · exact h (hw.eq_of_length hzero)
  have hstart : ((n.whole.length - whole.length : ℕ) : ℤ) -
      (((n.fraction.getD []).length - ((n.fraction.getD []).length - fraction.length) : ℕ) : ℤ) =
        n.whole.length - whole.length - fraction.length := by
    omega
  unfold value?
  simp only [absorb_of_keeps hw, absorb_of_keeps hf, ← ofDigits_append, hstart]
  cases hexponent : n.exponent with
  | none =>
    rw [power_of_none hexponent, add_zero]
    rfl
  | some exponent =>
    obtain ⟨down, ds⟩ := exponent
    have hbound : 2 ^ 31 = 0x80000000 := rfl
    rw [natAbs_power hexponent, power_of_some hexponent, hbound]
    dsimp only
    by_cases hvast : 0x80000000 ≤ ofDigits 0 ds
    · have hpos : ofDigits 0 ds ≠ 0 := by omega
      rw [if_pos hvast, if_pos hvast]
      cases down with
      | true => simp [hpos]
      | false =>
        by_cases hm : ofDigits 0 (whole ++ fraction) = 0
        · simp [hm]
        · simp [hm]
    · have hdown : ∀ k : ℤ, (if down then k - ofDigits 0 ds else k + ofDigits 0 ds) =
          k + if down then -(ofDigits 0 ds : ℤ) else ofDigits 0 ds := by
        intro k
        cases down <;> rfl
      rw [if_neg hvast, if_neg hvast, hdown]

end Parts

lemma value?_of_isReal (h : n.IsReal x) : n.value? = some (.real x) := by
  cases h with
  | negative hf he hn hfits hword =>
    have habsorb : absorb 0 n.whole = (ofDigits 0 n.whole, 0) := absorb_eq hfits
    rw [value?_of_kept hf he habsorb, if_pos hn]
    rcases hword with hzero | hlarge
    · rw [if_pos hzero, hzero]
      rfl
    · rw [if_neg (by omega), WordInt.ofInt?_neg_eq_none_iff.mpr hlarge]
      rfl
  | decimal hw hf hn he hx =>
    rw [value?_of_keeps hw hf hn, if_neg (not_le.mpr he), scaled?_eq_some_iff.mpr hx]
    rfl
  | vast hw hf he hx =>
    have hn : n.exponent ≠ none := by
      intro hnone
      rw [power_of_none hnone] at he
      cases he
    rw [value?_of_keeps hw hf (.inr (.inl hn)), if_pos he, if_pos hx]
    rfl

/-- A double without fraction and exponent has a sign. -/
lemma isReal_of_fits (hf : n.fraction = none) (he : n.exponent = none)
    (hfits : ofDigits 0 n.whole < 2 ^ 64) (h : n.value? = some (.real x)) : n.IsReal x := by
  have habsorb : absorb 0 n.whole = (ofDigits 0 n.whole, 0) := absorb_eq hfits
  rw [value?_of_kept hf he habsorb] at h
  split at h
  · rename_i hn
    split at h
    · rename_i hzero
      cases h
      have hx := IsReal.negative hf he hn hfits (.inl hzero)
      rwa [hzero] at hx
    · cases hword : WordInt.ofInt? (-(ofDigits 0 n.whole : ℤ)) with
      | some w =>
        rw [hword] at h
        cases h
      | none =>
        rw [hword] at h
        cases h
        exact .negative hf he hn hfits (.inr (WordInt.ofInt?_neg_eq_none_iff.mp hword))
  · obtain ⟨w, -, heq⟩ := Option.map_eq_some_iff.mp h
    cases heq

lemma isReal_of_value? (h : n.value? = some (.real x)) : n.IsReal x := by
  obtain ⟨whole, hw⟩ := exists_keeps n.whole (Nat.two_pow_pos 64)
  obtain ⟨fraction, hf⟩ := exists_keeps (n.fraction.getD []) hw.fits
  by_cases hn : n.fraction ≠ none ∨ n.exponent ≠ none ∨ whole ≠ n.whole
  · rw [value?_of_keeps hw hf hn] at h
    split at h
    · rename_i he
      split at h
      · rename_i hx
        cases h
        exact .vast hw hf he hx
      · cases h
    · rename_i he
      obtain ⟨y, hy, heq⟩ := Option.map_eq_some_iff.mp h
      cases heq
      exact .decimal hw hf hn (not_le.mp he) (scaled?_eq_some_iff.mp hy)
  · simp only [not_or, not_not] at hn
    obtain ⟨hfraction, hexponent, rfl⟩ := hn
    exact isReal_of_fits hfraction hexponent hw.fits h

/-- **A numeral has a double for value just if it stands for it.** -/
theorem value?_eq_real_iff : n.value? = some (.real x) ↔ n.IsReal x :=
  ⟨isReal_of_value?, value?_of_isReal⟩

/-- A fraction of one digit is divided by ten. -/
example : IsReal ⟨false, [2], some [5], none⟩ 2.5 := value?_eq_real_iff.mp (by decide +kernel)

/-- There is no double for the number `1e309`. -/
example (x : Float) : ¬ IsReal ⟨false, [1], none, some (false, [3, 0, 9])⟩ x := by
  rw [← value?_eq_real_iff]
  exact fun h => by cases h

end Json.Numeral

end SemanticStore
