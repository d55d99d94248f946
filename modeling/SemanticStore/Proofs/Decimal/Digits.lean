import Mathlib.Algebra.Order.Ring.Nat
import Mathlib.Tactic.Common
import SemanticStore.Decimal.Digits

/-!
# Numbers come back from their digits

`digits n` are the decimal digits of a number, and `natChars n` writes them. Digits in front of
something that is no digit are read whole (`spanDigits_append`), and their value is the number
(`ofDigits_digits`), also with zeros in front (`ofDigits_padded`).
-/

namespace SemanticStore.Decimal

/-- The decimal digits of a number, without zeros in front. -/
def digits (n : ℕ) : List ℕ := if n < 10 then [n] else digits (n / 10) ++ [n % 10]
termination_by n
decreasing_by omega

lemma digits_of_lt {n : ℕ} (h : n < 10) : digits n = [n] := by rw [digits, if_pos h]

lemma digits_of_not_lt {n : ℕ} (h : ¬ n < 10) : digits n = digits (n / 10) ++ [n % 10] := by
  rw [digits, if_neg h]

/-- The text does not start with a digit. -/
def NoDigitFirst (s : List Char) : Prop := ∀ c rest, s = c :: rest → digit? c = none

lemma noDigitFirst_cons {c : Char} {rest : List Char} (h : digit? c = none) :
    NoDigitFirst (c :: rest) := by
  rintro _ _ ⟨⟩
  exact h

/-! ### Digits as numbers -/

lemma ofDigits_append (acc : ℕ) (ds es : List ℕ) :
    ofDigits acc (ds ++ es) = ofDigits (ofDigits acc ds) es := List.foldl_append

theorem ofDigits_digits (n : ℕ) : ofDigits 0 (digits n) = n := by
  induction n using digits.induct with
  | case1 n h => simp [digits_of_lt h, ofDigits]
  | case2 n h ih =>
    rw [digits_of_not_lt h, ofDigits_append, ih]
    simp only [ofDigits, List.foldl_cons, List.foldl_nil]
    omega

theorem digits_lt_ten (n : ℕ) : ∀ d ∈ digits n, d < 10 := by
  induction n using digits.induct with
  | case1 n h => simp [digits_of_lt h, h]
  | case2 n h ih =>
    intro d hd
    rw [digits_of_not_lt h, List.mem_append, List.mem_singleton] at hd
    rcases hd with hd | rfl
    · exact ih d hd
    · omega

theorem length_digits_le (n w : ℕ) (hw : 0 < w) (h : n < 10 ^ w) : (digits n).length ≤ w := by
  induction n using digits.induct generalizing w with
  | case1 n hn => rw [digits_of_lt hn]; exact hw
  | case2 n hn ih =>
    obtain ⟨v, rfl⟩ : ∃ v, w = v + 1 := ⟨w - 1, by omega⟩
    rw [pow_succ] at h
    have hv : 0 < v := by
      rcases Nat.eq_zero_or_pos v with rfl | hv
      · simp only [pow_zero, one_mul] at h
        exact absurd h hn
      · exact hv
    rw [digits_of_not_lt hn, List.length_append, List.length_singleton]
    exact Nat.succ_le_succ (ih v hv (by omega))

lemma ofDigits_replicate_zero (k : ℕ) (ds : List ℕ) :
    ofDigits 0 (List.replicate k 0 ++ ds) = ofDigits 0 ds := by
  induction k with
  | zero => rfl
  | succ k ih => rw [List.replicate_succ, List.cons_append]; exact ih

/-! ### Digits as characters -/

lemma digit?_digitChar {d : ℕ} (h : d < 10) : digit? (digitChar d) = some d := by
  have : ∀ d < 10, digit? (digitChar d) = some d := by decide
  exact this d h

theorem natCharsOnto_eq (n : ℕ) (tail : List Char) :
    natCharsOnto n tail = (digits n).map digitChar ++ tail := by
  induction n using digits.induct generalizing tail with
  | case1 n h => rw [natCharsOnto, if_pos h, digits_of_lt h]; rfl
  | case2 n h ih =>
    rw [natCharsOnto, if_neg h, ih, digits_of_not_lt h]
    simp

theorem natChars_eq (n : ℕ) : natChars n = (digits n).map digitChar := by
  rw [natChars, natCharsOnto_eq, List.append_nil]

theorem spanDigits_append {ds : List ℕ} (hds : ∀ d ∈ ds, d < 10) {rest : List Char}
    (hrest : NoDigitFirst rest) : spanDigits (ds.map digitChar ++ rest) = (ds, rest) := by
  induction ds with
  | nil =>
    cases rest with
    | nil => rfl
    | cons c rest => simp [spanDigits, hrest c rest rfl]
  | cons d ds ih =>
    have hd := digit?_digitChar (hds d (List.mem_cons_self ..))
    rw [List.map_cons, List.cons_append, spanDigits, hd]
    simp only [ih fun e he => hds e (List.mem_cons_of_mem _ he)]

/-! ### Padded numbers -/

/-- The digits of a number with zeros in front up to a width. -/
def paddedDigits (width n : ℕ) : List ℕ :=
  List.replicate (width - (digits n).length) 0 ++ digits n

lemma paddedChars_eq (width n : ℕ) : paddedChars width n = (paddedDigits width n).map digitChar := by
  simp only [paddedChars, paddedDigits, natChars_eq, List.map_append, List.map_replicate,
    List.length_map]
  rfl

lemma ofDigits_padded (width n : ℕ) : ofDigits 0 (paddedDigits width n) = n := by
  unfold paddedDigits
  rw [ofDigits_replicate_zero, ofDigits_digits]

lemma paddedDigits_lt_ten (width n : ℕ) : ∀ d ∈ paddedDigits width n, d < 10 := by
  intro d hd
  rcases List.mem_append.mp hd with hd | hd
  · rw [List.eq_of_mem_replicate hd]
    decide
  · exact digits_lt_ten n d hd

lemma length_paddedDigits {width n : ℕ} (hw : 0 < width) (h : n < 10 ^ width) :
    (paddedDigits width n).length = width := by
  have := length_digits_le n width hw h
  unfold paddedDigits
  rw [List.length_append, List.length_replicate]
  omega

end SemanticStore.Decimal
