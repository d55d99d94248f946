import SemanticStore.Proofs.Scalar.Magnitude
import SemanticStore.Proofs.SelfDistance

/-!
# Scaling to unit length

The squares of a finite vector may overflow, or underflow to zero. Where their sum is zero the
vector is left as it is, and where it is infinite nothing is left of the vector but its signs. In
between no component leads above the norm, and the norm is not so large that all quotients are lost
(`Embedding.normalize_direction`).
-/

namespace SemanticStore

open Float.Model (Format UnpackedFloat)
open Single Scalar

namespace Scalar

variable {x n : Scalar}

lemma finite_cases (h : x.isFinite = true) :
    (∃ s, x.value = .zero s) ∨ ∃ s m e hm, x.value = .finite s m e hm := by
  have hx := not_special_of_isFinite h
  cases hv : x.value with
  | infinity s =>
    rw [hv] at hx
    exact absurd trivial hx
  | notANumber =>
    rw [hv] at hx
    exact absurd trivial hx
  | zero s => exact .inl ⟨s, rfl⟩
  | finite s m e hm => exact .inr ⟨s, m, e, hm, rfl⟩

lemma isFinite_of_not_special (h : ¬ Special x.value) : x.isFinite = true := by
  rw [← Bool.not_eq_false, isFinite_eq_false_iff]
  exact h

lemma numEq_zero_iff (x : Scalar) : x.numEq zero = true ↔ ∃ s, x.value = .zero s := by
  rw [numEq_eq, value_zero]
  cases x.value with
  | infinity s => cases s <;> simp [UnpackedFloat.compare]
  | notANumber => simp [UnpackedFloat.compare]
  | zero s => simp [UnpackedFloat.compare]
  | finite s m e hm => cases s <;> simp [UnpackedFloat.compare]

lemma eq_zero_of_value (h : x.value = .zero .positive) : x = zero := by
  obtain ⟨hu, hn⟩ := number_of_amount (h ▸ Amount.zero)
  have hranked := ranked_of_unsigned hu (by decide : zero.Unsigned) hn (by decide)
  exact hu.eq_zero (hranked.numEq_iff.mp ((numEq_zero_iff x).mpr ⟨_, h⟩)).le

lemma eq_infinity_iff : x = infinity ↔ x.value = .infinity .positive := by
  refine ⟨fun h => h ▸ value_infinity, fun h => ?_⟩
  obtain ⟨hu, hn⟩ := number_of_amount (h ▸ Amount.infinity)
  exact hu.eq_infinity hn (.inl (by rw [h]; trivial))

/-- The number is finite and has a sign. -/
def Signed (s : UnpackedFloat.Sign) (x : Scalar) : Prop :=
  x.value = .zero s ∨ ∃ m e hm, x.value = .finite s m e hm

lemma Signed.isFinite {s : UnpackedFloat.Sign} (h : x.Signed s) : x.isFinite = true := by
  refine isFinite_of_not_special ?_
  rcases h with h | ⟨m, e, hm, h⟩ <;> rw [h] <;> exact id

lemma Signed.unsigned_iff {s : UnpackedFloat.Sign} (h : x.Signed s) :
    x.Unsigned ↔ s = .positive := by
  rcases h with h | ⟨m, e, hm, h⟩
  · rw [unsigned_iff_plus (by simp [h]), h]
    rfl
  · rw [unsigned_iff_plus (by simp [h]), h]
    rfl

lemma exists_signed (h : x.isFinite = true) : ∃ s, x.Signed s := by
  rcases finite_cases h with ⟨s, h⟩ | ⟨s, m, e, hm, h⟩
  · exact ⟨s, .inl h⟩
  · exact ⟨s, .inr ⟨m, e, hm, h⟩⟩

/-- Over infinity, nothing but the sign is left. -/
lemma value_div_infinity {s : UnpackedFloat.Sign} (hx : x.Signed s)
    (hn : n.value = .infinity .positive) : (x / n).value = .zero s := by
  rw [div_eq, hn]
  rcases hx with h | ⟨m, e, hm, h⟩ <;> rw [h] <;> cases s <;> exact value_pack_zero _

lemma value_zero_div {s : UnpackedFloat.Sign} {m : ℕ} {e : ℤ} {hm : 0 < m}
    (hx : x.value = .zero s) (hn : n.value = .finite .positive m e hm) :
    (x / n).value = .zero s := by
  rw [div_eq, hx, hn]
  cases s <;> exact value_pack_zero _

end Scalar

namespace Embedding

variable {a : Embedding} {x : Scalar}

/-! ### Sums of squares -/

/-- A sum of amounts is an amount and reaches what any of them reaches. -/
theorem amount_sum {terms : List Scalar} (h : ∀ t ∈ terms, Amount t.value) (hne : terms ≠ []) :
    Amount (sum terms).value ∧
      ∀ o, ∀ t ∈ terms, Reaches o t.value → Reaches o (sum terms).value := by
  have hfold : ∀ (l : List Scalar) (acc : Scalar), (∀ t ∈ l, Amount t.value) → Amount acc.value →
      Amount (l.foldl (· + ·) acc).value ∧
        ∀ o, (Reaches o acc.value ∨ ∃ t ∈ l, Reaches o t.value) →
          Reaches o (l.foldl (· + ·) acc).value := by
    intro l
    induction l with
    | nil => exact fun acc _ hacc => ⟨hacc, fun o ho => by simpa using ho⟩
    | cons t l ih =>
      intro acc hl hacc
      obtain ⟨ht, hl⟩ := List.forall_mem_cons.mp hl
      obtain ⟨hsum, hreaches⟩ := Scalar.amount_add hacc ht
      obtain ⟨hamount, hrest⟩ := ih (acc + t) hl hsum
      refine ⟨hamount, fun o ho => hrest o ?_⟩
      rcases ho with ho | ⟨t', ht', ho⟩
      · exact .inl (hreaches o (.inl ho))
      · rcases List.mem_cons.mp ht' with rfl | ht'
        · exact .inl (hreaches o (.inr ho))
        · exact .inr ⟨t', ht', ho⟩
  obtain ⟨t, l, rfl⟩ := List.exists_cons_of_ne_nil hne
  obtain ⟨ht, hl⟩ := List.forall_mem_cons.mp h
  -- the sum starts at minus zero, which the first term replaces
  have hfirst := value_negZero_add ht
  obtain ⟨hamount, hreaches⟩ := hfold l (negZero + t) hl (hfirst ▸ ht)
  rw [hfirst] at hreaches
  refine ⟨hamount, fun o t' ht' ho => hreaches o ?_⟩
  rcases List.mem_cons.mp ht' with rfl | ht'
  · exact .inl ho
  · exact .inr ⟨t', ht', ho⟩

/-- The sum under the root of the norm. -/
def squares (a : Embedding) : Scalar := sum (a.map fun x => x * x)

lemma norm_eq (a : Embedding) : a.norm = a.squares.sqrt := rfl

lemma amount_square (h : x.isFinite = true) : Amount (x * x).value := by
  rcases finite_cases h with ⟨s, hx⟩ | ⟨s, m, e, hm, hx⟩
  · rw [value_mul_zero hx]
    exact .zero
  · rcases square_cases hx with ⟨hzero, -⟩ | ⟨hamount, -⟩
    · rw [hzero]
      exact .zero
    · exact hamount

theorem amount_squares (h : a.isFinite = true) (hne : a ≠ []) : Amount a.squares.value ∧
    ∀ o, ∀ x ∈ a, Reaches o (x * x).value → Reaches o a.squares.value := by
  have hterms : ∀ t ∈ a.map fun x => x * x, Amount t.value := by
    intro t ht
    obtain ⟨x, hx, rfl⟩ := List.mem_map.mp ht
    exact amount_square (List.all_eq_true.mp h x hx)
  obtain ⟨hamount, hreaches⟩ := amount_sum hterms (by simpa using hne)
  exact ⟨hamount, fun o x hx ho => hreaches o _ (List.mem_map_of_mem hx) ho⟩

lemma squares_of_zeros (h : ∀ x ∈ a, (x * x).value = .zero .positive) (hne : a ≠ []) :
    a.squares = zero := by
  refine sum_zeros (fun t ht => ?_) (by simpa using hne)
  obtain ⟨x, hx, rfl⟩ := List.mem_map.mp ht
  exact eq_zero_of_value (h x hx)

/-! ### The norm -/

/-- A norm between zero and infinity, for components that do not lead above it. -/
structure Ordinary (a : Embedding) (n : ℕ) (i : ℤ) : Prop where
  le : order n i ≤ 64
  leads : ∀ x ∈ a, ∀ {s m e hm}, x.value = .finite s m e hm → order m e ≤ order n i
  /-- not all squares underflow -/
  high : ∃ x ∈ a, ∃ s m e hm, x.value = .finite s m e hm ∧ -75 ≤ order m e

theorem norm_cases (h : a.isFinite = true) (hne : a ≠ []) :
    a.norm.value = .zero .positive ∨ a.norm.value = .infinity .positive ∨
      ∃ n i hn, a.norm.value = .finite .positive n i hn ∧ a.Ordinary n i := by
  obtain ⟨hamount, hreaches⟩ := amount_squares h hne
  rw [norm_eq]
  cases hs : a.squares.value with
  | notANumber =>
    rw [hs] at hamount
    cases hamount
  | zero s =>
    rw [hs] at hamount
    cases hamount
    rw [eq_zero_of_value hs, sqrt_zero]
    exact .inl value_zero
  | infinity s =>
    rw [hs] at hamount
    cases hamount
    rw [sqrt_eq, hs]
    exact .inr (.inl value_pack_infinity)
  | finite s m e hm =>
    rw [hs] at hamount
    cases hamount
    have hbounds := order_bounds hs
    obtain ⟨n, i, hn, hroot, hle, hge⟩ := sqrt_finite hs
    refine .inr (.inr ⟨n, i, hn, hroot, by omega, fun x hx s m' e' hm' hv => ?_, ?_⟩)
    · rcases square_cases hv with ⟨-, hlow⟩ | ⟨-, hsquare, -⟩
      · omega
      · have hsum := hreaches _ x hx hsquare
        rw [hs] at hsum
        have hsum : 2 * order m' e' ≤ order m e := hsum
        omega
    · by_contra hnone
      have hzeros : ∀ x ∈ a, (x * x).value = .zero .positive := by
        intro x hx
        rcases finite_cases (List.all_eq_true.mp h x hx) with ⟨s, hv⟩ | ⟨s, m, e, hm, hv⟩
        · exact value_mul_zero hv
        · rcases square_cases hv with ⟨hzero, -⟩ | ⟨-, -, hlow⟩
          · exact hzero
          · exact absurd ⟨x, hx, s, m, e, hm, hv, hlow⟩ hnone
      rw [squares_of_zeros hzeros hne, value_zero] at hs
      cases hs

/-! ### Scaling -/

lemma normalize_of_zero (hn : a.norm.value = .zero .positive) : a.normalize = a := by
  unfold normalize
  rw [lt_eq, value_zero, hn]
  rfl

lemma normalize_of_infinity (hn : a.norm.value = .infinity .positive) :
    a.normalize = a.map (· / a.norm) := by
  unfold normalize
  rw [lt_eq, value_zero, hn]
  rfl

lemma normalize_of_finite {n : ℕ} {i : ℤ} {hpos : 0 < n}
    (hn : a.norm.value = .finite .positive n i hpos) : a.normalize = a.map (· / a.norm) := by
  unfold normalize
  rw [lt_eq, value_zero, hn]
  rfl

/-- Over its norm, a component keeps its sign. -/
lemma Ordinary.signed_div {n : ℕ} {i : ℤ} {hpos : 0 < n} (ho : a.Ordinary n i)
    (hn : a.norm.value = .finite .positive n i hpos) (hx : x ∈ a) {s : UnpackedFloat.Sign}
    (hs : x.Signed s) : (x / a.norm).Signed s := by
  rcases hs with hv | ⟨m, e, hm, hv⟩
  · exact .inl (value_zero_div hv hn)
  · rcases div_finite hv hn (ho.leads x hx hv) with ⟨hzero, -⟩ | hfinite
    · exact .inl hzero
    · exact .inr hfinite

/-- Over its norm, a component that does not lead too far below it is not lost. -/
lemma Ordinary.exists_ne_zero {n : ℕ} {i : ℤ} {hpos : 0 < n} (ho : a.Ordinary n i)
    (hn : a.norm.value = .finite .positive n i hpos) :
    ∃ y ∈ a.map (· / a.norm), y.numEq zero = false := by
  obtain ⟨x, hx, s, m, e, hm, hv, hlow⟩ := ho.high
  have hle := ho.le
  refine ⟨_, List.mem_map_of_mem hx, ?_⟩
  rw [← Bool.not_eq_true, numEq_zero_iff]
  rintro ⟨s', hzero⟩
  rcases div_finite hv hn (ho.leads x hx hv) with ⟨-, hfar⟩ | ⟨m', e', hm', hfinite⟩
  · omega
  · rw [hfinite] at hzero
    cases hzero

/-- What scaling keeps. -/
structure Directed (a b : Embedding) : Prop where
  isFinite : b.isFinite = true
  signs : List.Forall₂ (fun x y => x.Unsigned ↔ y.Unsigned) a b

lemma directed_map {f : Scalar → Scalar} (h : a.isFinite = true)
    (hf : ∀ x ∈ a, ∀ s, x.Signed s → (f x).Signed s) : Directed a (a.map f) := by
  have hsigned : ∀ x ∈ a, ∃ s, x.Signed s ∧ (f x).Signed s := by
    intro x hx
    obtain ⟨s, hs⟩ := exists_signed (List.all_eq_true.mp h x hx)
    exact ⟨s, hs, hf x hx s hs⟩
  constructor
  · refine List.all_eq_true.mpr fun y hy => ?_
    obtain ⟨x, hx, rfl⟩ := List.mem_map.mp hy
    obtain ⟨s, -, hs⟩ := hsigned x hx
    exact hs.isFinite
  · rw [List.forall₂_map_right_iff, List.forall₂_same]
    intro x hx
    obtain ⟨s, hs, hs'⟩ := hsigned x hx
    rw [hs.unsigned_iff, hs'.unsigned_iff]

lemma directed_self (h : a.isFinite = true) : Directed a a :=
  ⟨h, List.forall₂_same.mpr fun _ _ => Iff.rfl⟩

/-- **Scaling keeps the length of a finite vector, finiteness and every sign bit**, and leaves zeros
as they are. Of another vector it leaves something other than zeros unless its norm is infinite. -/
theorem normalize_direction (h : a.isFinite = true) :
    a.normalize.length = a.length ∧ Directed a a.normalize ∧
    ((∀ x ∈ a, x.numEq zero = true) → a.normalize = a) ∧
    ((∃ x ∈ a, x.numEq zero = false) →
      ((∃ y ∈ a.normalize, y.numEq zero = false) ↔ a.norm ≠ infinity)) := by
  refine ⟨length_normalize a, ?_⟩
  rcases eq_or_ne a [] with rfl | hne
  · have hnil : normalize [] = [] := by unfold normalize; split <;> rfl
    rw [hnil]
    exact ⟨directed_self h, fun _ => rfl, by simp⟩
  have hzeros (hall : ∀ x ∈ a, x.numEq zero = true) : a.normalize = a := by
    refine normalize_of_zero ?_
    have hsquares : a.squares = zero := by
      refine squares_of_zeros (fun x hx => ?_) hne
      obtain ⟨s, hs⟩ := (numEq_zero_iff x).mp (hall x hx)
      exact value_mul_zero hs
    rw [norm_eq, hsquares, sqrt_zero, value_zero]
  rcases norm_cases h hne with hn | hn | ⟨n, i, hpos, hn, ho⟩
  · rw [normalize_of_zero hn, ne_eq, eq_infinity_iff, hn]
    exact ⟨directed_self h, fun _ => rfl, fun hx => by simp [hx]⟩
  · refine ⟨?_, hzeros, fun _ => ?_⟩
    · rw [normalize_of_infinity hn]
      exact directed_map h fun x _ s hs => .inl (value_div_infinity hs hn)
    · rw [normalize_of_infinity hn, ne_eq, eq_infinity_iff, hn]
      refine iff_of_false ?_ (by simp)
      rintro ⟨y, hy, hyne⟩
      obtain ⟨x, hx, rfl⟩ := List.mem_map.mp hy
      obtain ⟨s, hs⟩ := exists_signed (List.all_eq_true.mp h x hx)
      rw [(numEq_zero_iff _).mpr ⟨s, value_div_infinity hs hn⟩] at hyne
      cases hyne
  · refine ⟨?_, hzeros, fun _ => ?_⟩
    · rw [normalize_of_finite hn]
      exact directed_map h fun x hx s hs => ho.signed_div hn hx hs
    · rw [normalize_of_finite hn, ne_eq, eq_infinity_iff, hn]
      exact iff_of_true (ho.exists_ne_zero hn) (by simp)

/-- A component of `2 ^ 63`, whose square is still finite, the least negative number, and minus
zero. -/
def wide : Embedding := [⟨0x5f000000⟩, ⟨0x80000001⟩, negZero]

theorem normalize_direction_wide :
    wide.isFinite = true ∧ wide.norm ≠ infinity ∧ Directed wide wide.normalize ∧
      wide.normalize = [one, negZero, negZero] ∧ ∃ y ∈ wide.normalize, y.numEq zero = false := by
  have hfinite : wide.isFinite = true := by decide
  have hnorm : wide.norm ≠ infinity := by decide +kernel
  obtain ⟨-, hdirected, -, hkept⟩ := normalize_direction hfinite
  refine ⟨hfinite, hnorm, hdirected, by decide +kernel, (hkept ?_).mpr hnorm⟩
  decide +kernel

/-- The square of the first component is infinite, and of a finite vector only zeros are left. -/
theorem normalize_overflow :
    Embedding.isFinite [⟨0x7149f2ca⟩, zero] = true ∧
      (∃ x ∈ ([⟨0x7149f2ca⟩, zero] : Embedding), x.numEq zero = false) ∧
      ¬ ∃ y ∈ normalize [⟨0x7149f2ca⟩, zero], y.numEq zero = false := by
  decide +kernel

end Embedding

end SemanticStore
