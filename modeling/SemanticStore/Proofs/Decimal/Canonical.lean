import Mathlib.Data.List.Induction
import SemanticStore.Proofs.Decimal.Digits

/-!
# The canonical decimal text of an integer

`Decimal.Writes n s` says without an algorithm that `s` is the canonical text of `n`: decimal digits
with the value of `n`, no zero in front that could be left out, and a minus sign only if `n` is
below zero.

* `Decimal.intChars_eq_iff`: every integer has just one such text, the one that `intChars` writes.
* `Decimal.intChars_injective`: no text is that of two integers.
-/

namespace SemanticStore.Decimal

/-- Digits of which none can be left out. -/
structure Shortest (ds : List ℕ) : Prop where
  digits : ∀ d ∈ ds, d < 10
  nonempty : ds ≠ []
  leading : ds.head? = some 0 → ds = [0]

/-- The text is the canonical one of the integer. -/
inductive Writes : ℤ → List Char → Prop where
  | plain {ds : List ℕ} (h : Shortest ds) : Writes (ofDigits 0 ds) (ds.map digitChar)
  | minus {ds : List ℕ} (h : Shortest ds) (hne : ofDigits 0 ds ≠ 0) :
      Writes (-(ofDigits 0 ds : ℤ)) ('-' :: ds.map digitChar)

/-! ### Shortest digits -/

lemma head?_digits {n : ℕ} (h : (digits n).head? = some 0) : n = 0 := by
  induction n using digits.induct with
  | case1 n hn =>
    rw [digits_of_lt hn] at h
    exact Option.some.inj h
  | case2 n hn ih =>
    rw [digits_of_not_lt hn, List.head?_append] at h
    cases hd : (digits (n / 10)).head? with
    | some d =>
      rw [hd, Option.some_or] at h
      have := ih (hd.trans h)
      omega
    | none =>
      rw [hd, Option.none_or] at h
      have hnil : digits (n / 10) = [] := List.head?_eq_none_iff.mp hd
      have hzero := ofDigits_digits (n / 10)
      rw [hnil] at hzero
      have : 0 = n / 10 := hzero
      omega

theorem shortest_digits (n : ℕ) : Shortest (digits n) := by
  refine ⟨digits_lt_ten n, fun hnil => ?_, fun hhead => ?_⟩
  · rw [digits] at hnil
    split at hnil
    · cases hnil
    · simp at hnil
  · obtain rfl := head?_digits hhead
    exact digits_of_lt (by decide)

/-- **Of a number no other digits can be shortest than its own.** -/
theorem Shortest.eq_digits {ds : List ℕ} (h : Shortest ds) :
    ds = Decimal.digits (ofDigits 0 ds) := by
  induction ds using List.reverseRecOn with
  | nil => exact absurd rfl h.nonempty
  | append_singleton es d ih =>
    have hd : d < 10 := h.digits d (by simp)
    cases es with
    | nil =>
      have hone : ofDigits 0 ([] ++ [d]) = d := Nat.zero_add d
      rw [hone, digits_of_lt hd]
      rfl
    | cons e es =>
      -- there are at least two digits, so the first of them is not zero
      have hlead : e ≠ 0 := by
        rintro rfl
        have := h.leading rfl
        simp at this
      have hes : Shortest (e :: es) := by
        refine ⟨fun x hx => h.digits x (List.mem_append_left _ hx), nofun, fun hz => ?_⟩
        exact absurd (Option.some.inj hz) hlead
      have hrest := ih hes
      have hpos : ofDigits 0 (e :: es) ≠ 0 := by
        intro hz
        rw [hz, digits_of_lt (by decide)] at hrest
        exact hlead (List.cons.inj hrest).1
      have hvalue : ofDigits 0 (e :: es ++ [d]) = ofDigits 0 (e :: es) * 10 + d :=
        ofDigits_append ..
      generalize ofDigits 0 (e :: es) = m at *
      rw [hvalue, digits_of_not_lt (by omega)]
      have htens : (m * 10 + d) / 10 = m := by omega
      have hones : (m * 10 + d) % 10 = d := by omega
      rw [htens, hones, ← hrest]

lemma eq_of_map_digitChar {ds es : List ℕ} (hds : ∀ d ∈ ds, d < 10) (hes : ∀ e ∈ es, e < 10)
    (h : ds.map digitChar = es.map digitChar) : ds = es := by
  have hread : ∀ {l : List ℕ}, (∀ d ∈ l, d < 10) → (l.map digitChar).map digit? = l.map some := by
    intro l hl
    rw [List.map_map]
    exact List.map_congr_left fun d hd => digit?_digitChar (hl d hd)
  apply (List.map_inj_right fun _ _ => Option.some.inj).mp
  rw [← hread hds, h, hread hes]

/-! ### Integers -/

theorem writes_intChars (n : ℤ) : Writes n (intChars n) := by
  cases n with
  | ofNat n =>
    have h := Writes.plain (shortest_digits n)
    rw [ofDigits_digits, ← natChars_eq] at h
    exact h
  | negSucc n =>
    have h := Writes.minus (shortest_digits (n + 1)) (by rw [ofDigits_digits]; omega)
    rw [ofDigits_digits, ← natChars_eq] at h
    exact h

/-- A text is canonical for one integer only. -/
theorem Writes.unique {m n : ℤ} {s : List Char} (hm : Writes m s) (hn : Writes n s) : m = n := by
  have hsign {ds : List ℕ} (hds : Shortest ds) (rest : List Char) :
      ds.map digitChar ≠ '-' :: rest := by
    intro h
    obtain ⟨d, es, rfl⟩ := List.exists_cons_of_ne_nil hds.nonempty
    have hread := digit?_digitChar (hds.digits d (List.mem_cons_self ..))
    rw [(List.cons.inj h).1] at hread
    cases hread
  cases hm with
  | plain hds =>
    generalize hs : List.map digitChar _ = s at hn
    cases hn with
    | plain hes => rw [eq_of_map_digitChar hds.digits hes.digits hs]
    | minus hes hne => exact absurd hs (hsign hds _)
  | minus hds hne =>
    generalize hs : '-' :: List.map digitChar _ = s at hn
    cases hn with
    | plain hes => exact absurd hs.symm (hsign hes _)
    | minus hes hne' => rw [eq_of_map_digitChar hds.digits hes.digits (List.cons.inj hs).2]

/-- **Every integer has one canonical text.** -/
theorem intChars_eq_iff {n : ℤ} {s : List Char} : intChars n = s ↔ Writes n s := by
  constructor
  · rintro rfl
    exact writes_intChars n
  · intro h
    cases h with
    | plain hds =>
      show natChars _ = _
      rw [natChars_eq, ← hds.eq_digits]
    | @minus ds hds hne =>
      obtain ⟨k, hk⟩ : ∃ k, ofDigits 0 ds = k + 1 := ⟨ofDigits 0 ds - 1, by omega⟩
      have hneg : -(ofDigits 0 ds : ℤ) = Int.negSucc k := by omega
      rw [hneg]
      show '-' :: natChars (k + 1) = _
      rw [natChars_eq, ← hk, ← hds.eq_digits]

/-- No zero may stand in front, not even behind the sign. -/
example : Writes (-0x8000000000000000) "-9223372036854775808".toList ∧
    ¬ Writes (-0x8000000000000000) "-09223372036854775808".toList := by
  rw [← intChars_eq_iff, ← intChars_eq_iff]
  decide +kernel

theorem intChars_injective {m n : ℤ} (h : intChars m = intChars n) : m = n :=
  (writes_intChars m).unique (h ▸ writes_intChars n)

end SemanticStore.Decimal
