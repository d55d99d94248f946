import Mathlib.Tactic.Common
import SemanticStore.Proofs.Decimal.Digits
import SemanticStore.Timestamp

/-!
# Instants come back from their texts

`Timestamp.parse?_renderNumeric`: an instant in the years 0 to 9999 is read from what is written of
it. From the text of any other instant nothing is read (`Timestamp.parse?_renderNumeric_iff`).
-/

namespace SemanticStore.Timestamp

open Decimal

/-- The instant lies in the years 0 to 9999, which are written with four digits. -/
def InEra (t : Timestamp) : Prop := 0 ≤ t.moment.year ∧ t.moment.year ≤ 9999

instance (t : Timestamp) : Decidable t.InEra := by unfold InEra; infer_instance

lemma daysInMonth_le (year : Int) (month : ℕ) : daysInMonth year month ≤ 31 := by
  unfold daysInMonth
  split
  · split <;> omega
  · split <;> omega

theorem number?_padded {width n : ℕ} (hw : 0 < width) (hn : n < 10 ^ width) {rest : List Char}
    (hrest : NoDigitFirst rest) :
    number? width width (paddedChars width n ++ rest) = some (n, rest) := by
  have hlen := length_paddedDigits hw hn
  unfold number?
  rw [paddedChars_eq, spanDigits_append (paddedDigits_lt_ten width n) hrest]
  simp only [hlen, Nat.lt_irrefl, if_false]
  rw [List.take_of_length_le (Nat.le_of_eq hlen), List.drop_of_length_le (Nat.le_of_eq hlen),
    ofDigits_padded]
  rfl

section Steps

variable {α : Type} {rest : List Char}

lemma number?_bind {width n : ℕ} (hw : 0 < width) (hn : n < 10 ^ width) (hrest : NoDigitFirst rest)
    (f : ℕ × List Char → Option α) :
    (number? width width (paddedChars width n ++ rest) >>= f) = f (n, rest) := by
  rw [number?_padded hw hn hrest]
  rfl

lemma char?_bind (c : Char) (f : List Char → Option α) :
    (char? c (c :: rest) >>= f) = f rest := by
  have hread : char? c (c :: rest) = some rest := if_pos rfl
  rw [hread]
  rfl

end Steps

lemma fraction?_dot (rest : List Char) : fraction? ('.' :: rest) = match spanDigits rest with
    | ([], _) => none
    | (digits, rest) =>
        some (ofDigits 0 (digits.take 9) * 10 ^ (9 - (digits.take 9).length), rest) := rfl

lemma fraction?_of_ne {c : Char} (h : c ≠ '.') (rest : List Char) :
    fraction? (c :: rest) = some (0, c :: rest) := by
  unfold fraction?
  split
  · rename_i heq
    injection heq with heq
    exact absurd heq h
  · rfl

lemma fraction?_padded {width n : ℕ} (hw : 0 < width) (hw9 : width ≤ 9) (hn : n < 10 ^ width)
    {rest : List Char} (hrest : NoDigitFirst rest) :
    fraction? ('.' :: (paddedChars width n ++ rest)) = some (n * 10 ^ (9 - width), rest) := by
  have hlen := length_paddedDigits hw hn
  rw [fraction?_dot, paddedChars_eq, spanDigits_append (paddedDigits_lt_ten width n) hrest]
  cases hds : paddedDigits width n with
  | nil =>
    rw [hds] at hlen
    simp only [List.length_nil] at hlen
    omega
  | cons d ds =>
    have htake : (d :: ds).take 9 = d :: ds := by
      rw [← hds]
      exact List.take_of_length_le (by omega)
    simp only [htake]
    rw [← hds, ofDigits_padded, hlen]

theorem fraction?_fractionChars {n : ℕ} (hn : n < 1000000000) {c : Char} {rest : List Char}
    (hc : digit? c = none) (hdot : c ≠ '.') :
    fraction? (fractionChars n ++ c :: rest) = some (n, c :: rest) := by
  have hrest : NoDigitFirst (c :: rest) := noDigitFirst_cons hc
  unfold fractionChars
  split
  · rename_i h0
    subst h0
    rw [List.nil_append, fraction?_of_ne hdot]
  · split
    · rw [List.cons_append, fraction?_padded (by decide) (by decide) (by omega) hrest]
      congr 2
      omega
    · split
      · rw [List.cons_append, fraction?_padded (by decide) (by decide) (by omega) hrest]
        congr 2
        omega
      · rw [List.cons_append, fraction?_padded (by decide) (by decide) (by omega) hrest]
        congr 2
        omega

lemma minusMinutes_zero {m : Moment} (h : m.Valid) : m.minusMinutes 0 = m := by
  obtain ⟨-, -, -, hh, hm, -, -⟩ := h
  obtain ⟨year, month, day, hour, minute, second, nanosecond⟩ := m
  simp only at hh hm
  unfold Moment.minusMinutes
  simp only
  rw [if_neg (by omega), if_neg (by omega)]
  congr 1
  · omega
  · omega

lemma atOffset?_zero (t : Timestamp) : atOffset? t.moment 0 = some t := by
  unfold atOffset? of?
  rw [if_pos ⟨by decide, t.valid⟩, minusMinutes_zero t.valid, dif_pos t.valid]

/-- The text of a moment in these years, in front of an offset. -/
lemma localChars_append {m : Moment} (h : 0 ≤ m.year ∧ m.year ≤ 9999) (offset : List Char) :
    localChars m ++ offset = paddedChars 4 m.year.toNat ++ '-' :: (paddedChars 2 m.month ++
      '-' :: (paddedChars 2 m.day ++ 'T' :: (paddedChars 2 m.hour ++
        ':' :: (paddedChars 2 m.minute ++ ':' :: (paddedChars 2 m.second ++
          (fractionChars m.nanosecond ++ offset)))))) := by
  unfold localChars yearChars
  rw [if_pos h]
  simp only [List.append_assoc, List.cons_append]

lemma noDigitFirst_fractionChars (n : ℕ) {rest : List Char} (hrest : NoDigitFirst rest) :
    NoDigitFirst (fractionChars n ++ rest) := by
  have hdot (digits : List Char) : NoDigitFirst ('.' :: digits ++ rest) :=
    noDigitFirst_cons (by decide)
  unfold fractionChars
  split
  · exact hrest
  · split
    · exact hdot _
    · split
      · exact hdot _
      · exact hdot _

/-- **An instant in the years 0 to 9999 comes back from its text.** -/
theorem parse?_renderNumeric (t : Timestamp) (h : t.InEra) : parse? t.renderNumeric = some t := by
  obtain ⟨-, ⟨hm1, hm2⟩, ⟨hd1, hd2⟩, hhour, hminute, hsecond, hnano⟩ := t.valid
  have hday := Nat.le_trans hd2 (daysInMonth_le t.moment.year t.moment.month)
  have hyear : t.moment.year.toNat < 10 ^ 4 := by have := h.2; omega
  have hmark : ∀ {c : Char} {rest : List Char}, digit? c = none → NoDigitFirst (c :: rest) :=
    noDigitFirst_cons
  have hfrac : NoDigitFirst (fractionChars t.moment.nanosecond ++ ['+', '0', '0', ':', '0', '0']) :=
    noDigitFirst_fractionChars _ (hmark (by decide))
  have hoffset : offset? (char? ':') ['+', '0', '0', ':', '0', '0'] = some (0, []) := rfl
  unfold parse? renderNumeric parseChars?
  rw [String.toList_ofList, localChars_append h]
  -- each number is read up to the mark behind it
  refine (number?_bind (by decide) hyear (hmark (by decide)) _).trans ?_
  refine (char?_bind '-' _).trans ?_
  refine (number?_bind (by decide) (by omega) (hmark (by decide)) _).trans ?_
  refine (char?_bind '-' _).trans ?_
  refine (number?_bind (by decide) (by omega) (hmark (by decide)) _).trans ?_
  refine (number?_bind (by decide) (by omega) (hmark (by decide)) _).trans ?_
  refine (char?_bind ':' _).trans ?_
  refine (number?_bind (by decide) (by omega) (hmark (by decide)) _).trans ?_
  refine (char?_bind ':' _).trans ?_
  refine (number?_bind (by decide) (by omega) hfrac _).trans ?_
  dsimp only
  rw [fraction?_fractionChars hnano (by decide) (by decide)]
  simp only [hoffset, Option.bind_eq_bind, Option.bind_some, if_true, Int.toNat_of_nonneg h.1]
  exact atOffset?_zero t

/-- No instant is read from the text of one in other years, which starts with a sign. -/
lemma parse?_renderNumeric_of_not_inEra (t : Timestamp) (h : ¬ t.InEra) :
    parse? t.renderNumeric = none := by
  have hyear : yearChars t.moment.year =
      (if t.moment.year < 0 then '-' else '+') :: paddedChars 4 t.moment.year.natAbs := if_neg h
  unfold parse? renderNumeric localChars
  rw [String.toList_ofList, hyear]
  split
  · rfl
  · rfl

/-- **Nothing else is read from the text of an instant than the instant.** -/
theorem parse?_renderNumeric_iff (t t' : Timestamp) :
    parse? t.renderNumeric = some t' ↔ t.InEra ∧ t' = t := by
  by_cases h : t.InEra
  · simp [parse?_renderNumeric t h, h, eq_comm]
  · simp [parse?_renderNumeric_of_not_inEra t h, h]

end SemanticStore.Timestamp
