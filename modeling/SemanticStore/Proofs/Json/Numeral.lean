import SemanticStore.Json.Numeral
import SemanticStore.Json.Writer
import SemanticStore.Proofs.Decimal.Digits

/-!
# Integers and their numerals

A numeral has an integer for value just if it writes one that fits a word
(`Numeral.value?_eq_integer_iff`). `Numeral.ofInt n` is the numeral that an integer is written as
(`Numeral.ofChars?_intChars`), so the integer comes back from it (`Numeral.value?_ofInt`).
-/

namespace SemanticStore

namespace Decimal

lemma digits_ne_nil (n : ℕ) : digits n ≠ [] := by
  rw [digits]
  split <;> simp

theorem exists_digits_of_pos {n : ℕ} (hn : 0 < n) : ∃ d ds, digits n = d :: ds ∧ 0 < d := by
  induction n using digits.induct with
  | case1 n h => exact ⟨n, [], digits_of_lt h, hn⟩
  | case2 n h ih =>
    obtain ⟨d, ds, hds, hd⟩ := ih (by omega)
    exact ⟨d, ds ++ [n % 10], by rw [digits_of_not_lt h, hds, List.cons_append], hd⟩

lemma le_ofDigits (acc : ℕ) (ds : List ℕ) : acc ≤ ofDigits acc ds := by
  induction ds generalizing acc with
  | nil => exact le_rfl
  | cons d ds ih =>
    have hle : acc ≤ acc * 10 + d := by omega
    exact hle.trans (ih _)

end Decimal

lemma WordInt.ofInt?_eq_some_iff {i : ℤ} {w : WordInt} : ofInt? i = some w ↔ w.val = i := by
  unfold ofInt?
  obtain ⟨i', hlower, hupper⟩ := w
  constructor
  · intro h
    split at h
    · cases h; rfl
    · cases h
  · rintro rfl
    exact dif_pos ⟨hlower, hupper⟩

namespace Json

open Decimal

namespace Numeral

/-- The numeral of an integer. -/
def ofInt (n : ℤ) : Numeral := ⟨decide (n < 0), digits n.natAbs, none, none⟩

/-- The numeral writes this integer: without fraction and exponent, and zero without a sign. -/
structure IsInteger (n : Numeral) (i : ℤ) : Prop where
  fraction : n.fraction = none
  exponent : n.exponent = none
  value : i = if n.negative then -(ofDigits 0 n.whole : ℤ) else ofDigits 0 n.whole
  unsigned : n.negative = true → i ≠ 0

/-! ### The text of an integer -/

theorem unsigned?_natChars (negative : Bool) (n : ℕ) :
    unsigned? negative (natChars n) = some ⟨negative, digits n, none, none⟩ := by
  have hspan : spanDigits (natChars n) = (digits n, []) := by
    have hnil : NoDigitFirst [] := fun c rest h => by cases h
    have := spanDigits_append (digits_lt_ten n) hnil
    rwa [List.append_nil, ← natChars_eq] at this
  unfold unsigned?
  rw [hspan]
  rcases Nat.eq_zero_or_pos n with rfl | hn
  · rw [digits_of_lt (by decide)]
    rfl
  · obtain ⟨d, ds, hds, hd⟩ := exists_digits_of_pos hn
    obtain ⟨e, rfl⟩ : ∃ e, d = e + 1 := ⟨d - 1, by omega⟩
    rw [hds]
    rfl

lemma exists_natChars (n : ℕ) : ∃ d ds, d < 10 ∧ natChars n = digitChar d :: ds := by
  obtain ⟨d, ds, hds⟩ := List.exists_cons_of_ne_nil (digits_ne_nil n)
  refine ⟨d, ds.map digitChar, digits_lt_ten n d (hds ▸ List.mem_cons_self ..), ?_⟩
  rw [natChars_eq, hds, List.map_cons]

lemma digitChar_ne_minus {d : ℕ} (hd : d < 10) : digitChar d ≠ '-' := by
  have : ∀ d < 10, digitChar d ≠ '-' := by decide
  exact this d hd

theorem ofChars?_intChars (n : ℤ) : ofChars? (intChars n) = some (ofInt n) := by
  cases n with
  | negSucc n =>
    have hint : ofInt (.negSucc n) = ⟨true, digits (n + 1), none, none⟩ := by
      simp [ofInt, Int.negSucc_lt_zero]
    exact hint ▸ unsigned?_natChars true (n + 1)
  | ofNat n =>
    obtain ⟨d, ds, hd, hds⟩ := exists_natChars n
    have hread : ofChars? (natChars n) = unsigned? false (natChars n) := by
      rw [hds]
      unfold ofChars?
      split
      · rename_i heq
        exact absurd (List.cons.inj heq).1 (digitChar_ne_minus hd)
      · rfl
    exact hread.trans (unsigned?_natChars false n)

/-! ### The value of the numeral -/

lemma absorb_eq {acc : ℕ} {ds : List ℕ} (h : ofDigits acc ds < 0x10000000000000000) :
    absorb acc ds = (ofDigits acc ds, 0) := by
  induction ds generalizing acc with
  | nil => rfl
  | cons d ds ih =>
    have hlt := (le_ofDigits (acc * 10 + d) ds).trans_lt h
    rw [absorb, if_pos hlt, ih h]
    rfl

lemma eq_ofDigits_of_absorb {acc m : ℕ} {ds : List ℕ} (h : absorb acc ds = (m, 0)) :
    m = ofDigits acc ds := by
  induction ds generalizing acc with
  | nil => exact (congrArg Prod.fst h).symm
  | cons d ds ih =>
    rw [absorb] at h
    split at h
    · exact ih h
    · cases congrArg Prod.snd h

/-- A number with a fraction or an exponent, or with digits left over, is a double. -/
lemma exists_signed {n : Numeral} {x : JsonNumber} {m dropped : ℕ}
    (habsorb : absorb 0 n.whole = (m, dropped))
    (hn : ¬ (n.fraction = none ∧ n.exponent = none ∧ dropped = 0)) (h : n.value? = some x) :
    ∃ y, x = signed n.negative y := by
  unfold value? at h
  simp only [habsorb] at h
  split at h
  · rename_i hfraction hexponent
    exact absurd ⟨hfraction, hexponent, rfl⟩ hn
  · split at h
    · obtain ⟨y, -, rfl⟩ := Option.map_eq_some_iff.mp h
      exact ⟨y, rfl⟩
    · split at h
      · split at h
        · cases h
        · exact ⟨_, (Option.some.inj h).symm⟩
      · obtain ⟨y, -, rfl⟩ := Option.map_eq_some_iff.mp h
        exact ⟨y, rfl⟩

/-- The value of a number without fraction and exponent whose digits are all kept. -/
lemma value?_of_kept {n : Numeral} {m : ℕ} (hfraction : n.fraction = none)
    (hexponent : n.exponent = none) (habsorb : absorb 0 n.whole = (m, 0)) :
    n.value? = if n.negative then
        if m = 0 then some (.real (-0.0))
        else some (((WordInt.ofInt? (-(m : ℤ))).map .integer).getD (signed true (Float.ofNat m)))
      else (WordInt.ofInt? m).map .integer := by
  unfold value?
  simp only [habsorb, hfraction, hexponent]
  cases WordInt.ofInt? (-(m : ℤ)) <;> rfl

lemma isInteger_of_value? {n : Numeral} {w : WordInt} (h : n.value? = some (.integer w)) :
    n.IsInteger w.val := by
  rcases habsorb : absorb 0 n.whole with ⟨m, dropped⟩
  by_cases hkept : n.fraction = none ∧ n.exponent = none ∧ dropped = 0
  · obtain ⟨hfraction, hexponent, rfl⟩ := hkept
    obtain rfl := eq_ofDigits_of_absorb habsorb
    rw [value?_of_kept hfraction hexponent habsorb] at h
    split at h
    · rename_i hnegative
      split at h
      · cases h
      · rename_i hne
        cases hw : WordInt.ofInt? (-(ofDigits 0 n.whole : ℤ)) with
        | none => rw [hw] at h; cases h
        | some w' =>
          rw [hw] at h
          cases h
          have hval := WordInt.ofInt?_eq_some_iff.mp hw
          exact ⟨hfraction, hexponent, by rw [hval, if_pos hnegative], fun _ => by omega⟩
    · rename_i hnegative
      obtain ⟨w', hw, heq⟩ := Option.map_eq_some_iff.mp h
      cases heq
      exact ⟨hfraction, hexponent, by rw [WordInt.ofInt?_eq_some_iff.mp hw, if_neg hnegative],
        fun htrue => absurd htrue hnegative⟩
  · obtain ⟨y, hy⟩ := exists_signed habsorb hkept h
    cases hy

lemma value?_of_isInteger {n : Numeral} {w : WordInt} (h : n.IsInteger w.val) :
    n.value? = some (.integer w) := by
  obtain ⟨hfraction, hexponent, hval, hunsigned⟩ := h
  have hlower := w.lower
  have hupper := w.upper
  have habsorb : absorb 0 n.whole = (ofDigits 0 n.whole, 0) := by
    refine absorb_eq ?_
    split at hval <;> omega
  rw [value?_of_kept hfraction hexponent habsorb]
  by_cases hnegative : n.negative = true
  · rw [if_pos hnegative] at hval ⊢
    have hne := hunsigned hnegative
    rw [if_neg (by omega), WordInt.ofInt?_eq_some_iff.mpr hval]
    rfl
  · rw [if_neg hnegative] at hval ⊢
    rw [WordInt.ofInt?_eq_some_iff.mpr hval]
    rfl

/-- **A numeral has an integer for value just if it writes that integer.** -/
theorem value?_eq_integer_iff {n : Numeral} {w : WordInt} :
    n.value? = some (.integer w) ↔ n.IsInteger w.val :=
  ⟨isInteger_of_value?, value?_of_isInteger⟩

theorem value?_ofInt (w : WordInt) : (ofInt w.val).value? = some (.integer w) := by
  refine value?_of_isInteger ⟨rfl, rfl, ?_, ?_⟩
  · simp only [ofInt, ofDigits_digits, decide_eq_true_eq]
    split <;> omega
  · simp only [ofInt, decide_eq_true_eq]
    omega

end Numeral

end Json

end SemanticStore
