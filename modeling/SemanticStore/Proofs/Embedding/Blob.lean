import Mathlib.Algebra.Group.Nat.Defs
import Mathlib.Tactic.Common
import SemanticStore.Embedding.Blob

/-!
# Embeddings and byte strings

* `Blob.decode?_encode`: the bytes of an embedding are read as that embedding, bit for bit.
* `Blob.encode_of_decode?`: what is read of a byte string has these bytes.
* `Blob.encode_decode`: embeddings correspond one to one to the byte strings of whole words, and all
  other byte strings are refused.
-/

namespace SemanticStore.Embedding.Blob

/-! ### Words -/

lemma toNat_word (b₀ b₁ b₂ b₃ : UInt8) :
    (word b₀ b₁ b₂ b₃).toNat =
      b₀.toNat + 2 ^ 8 * b₁.toNat + 2 ^ 16 * b₂.toNat + 2 ^ 24 * b₃.toNat := by
  have h₀ : b₀.toNat < 2 ^ 8 := b₀.toNat_lt
  have h₁ : b₁.toNat < 2 ^ 8 := b₁.toNat_lt
  have h₂ : b₂.toNat < 2 ^ 8 := b₂.toNat_lt
  -- what stands higher up adds to what stands below it
  have hor (k x y : ℕ) (hx : x < 2 ^ k) : x ||| 2 ^ k * y = x + 2 ^ k * y := by
    rw [Nat.or_comm, ← Nat.two_pow_add_eq_or_of_lt hx, Nat.add_comm]
  have hshift (b : UInt8) (k : UInt32) (n : ℕ) (hk : k.toNat % 32 = n) (hn : n ≤ 24) :
      (b.toUInt32 <<< k).toNat = 2 ^ n * b.toNat := by
    have hb : b.toNat < 2 ^ 8 := b.toNat_lt
    have hpow : 2 ^ n ≤ 2 ^ 24 := Nat.pow_le_pow_right (by decide) hn
    have hfits : 2 ^ n * b.toNat < 2 ^ 32 :=
      Nat.lt_of_le_of_lt (Nat.mul_le_mul_right _ hpow) (by omega)
    rw [UInt32.toNat_shiftLeft, UInt8.toNat_toUInt32, hk, Nat.shiftLeft_eq, Nat.mul_comm,
      Nat.mod_eq_of_lt hfits]
  unfold word
  rw [UInt32.toNat_or, UInt32.toNat_or, UInt32.toNat_or, UInt8.toNat_toUInt32,
    hshift b₁ 8 8 rfl (by decide), hshift b₂ 16 16 rfl (by decide), hshift b₃ 24 24 rfl (by decide),
    hor 8 _ _ h₀, hor 16 _ _ (by omega), hor 24 _ _ (by omega)]

lemma toNat_byte (w : UInt32) {k : UInt32} {n : ℕ} (hk : k.toNat % 32 = n) :
    (w >>> k).toUInt8.toNat = w.toNat / 2 ^ n % 2 ^ 8 := by
  rw [UInt32.toNat_toUInt8, UInt32.toNat_shiftRight, hk, Nat.shiftRight_eq_div_pow]

theorem word_bytes (w : UInt32) :
    word w.toUInt8 (w >>> 8).toUInt8 (w >>> 16).toUInt8 (w >>> 24).toUInt8 = w := by
  have hw : w.toNat < 2 ^ 32 := w.toNat_lt
  have h₁ : (w >>> 8).toUInt8.toNat = w.toNat / 2 ^ 8 % 2 ^ 8 := toNat_byte w rfl
  have h₂ : (w >>> 16).toUInt8.toNat = w.toNat / 2 ^ 16 % 2 ^ 8 := toNat_byte w rfl
  have h₃ : (w >>> 24).toUInt8.toNat = w.toNat / 2 ^ 24 % 2 ^ 8 := toNat_byte w rfl
  apply UInt32.toNat_inj.mp
  rw [toNat_word, UInt32.toNat_toUInt8, h₁, h₂, h₃]
  omega

theorem wordBytes_word (b₀ b₁ b₂ b₃ : UInt8) :
    wordBytes (word b₀ b₁ b₂ b₃) = [b₀, b₁, b₂, b₃] := by
  have hword := toNat_word b₀ b₁ b₂ b₃
  have h₁ : (word b₀ b₁ b₂ b₃ >>> 8).toUInt8.toNat = _ / 2 ^ 8 % 2 ^ 8 := toNat_byte _ rfl
  have h₂ : (word b₀ b₁ b₂ b₃ >>> 16).toUInt8.toNat = _ / 2 ^ 16 % 2 ^ 8 := toNat_byte _ rfl
  have h₃ : (word b₀ b₁ b₂ b₃ >>> 24).toUInt8.toNat = _ / 2 ^ 24 % 2 ^ 8 := toNat_byte _ rfl
  have := b₀.toNat_lt
  have := b₁.toNat_lt
  have := b₂.toNat_lt
  have := b₃.toNat_lt
  unfold wordBytes
  simp only [List.cons.injEq, and_true, ← UInt8.toNat_inj, UInt32.toNat_toUInt8, h₁, h₂, h₃, hword]
  refine ⟨?_, ?_, ?_, ?_⟩ <;> omega

/-! ### Embeddings -/

/-- **An embedding comes back from its bytes.** -/
theorem decode?_encode (a : Embedding) : decode? (encode a) = some a := by
  induction a with
  | nil => rfl
  | cons x a ih =>
    have hcons : encode (x :: a) = x.bits.toUInt8 :: (x.bits >>> 8).toUInt8 ::
        (x.bits >>> 16).toUInt8 :: (x.bits >>> 24).toUInt8 :: encode a := rfl
    rw [hcons, decode?, ih, word_bytes]
    rfl

lemma encode_cons (x : Scalar) (a : Embedding) :
    encode (x :: a) = wordBytes x.bits ++ encode a := rfl

theorem length_encode (a : Embedding) : (encode a).length = 4 * a.length := by
  induction a with
  | nil => rfl
  | cons x a ih =>
    rw [encode_cons, List.length_append, ih, List.length_cons]
    show 4 + 4 * a.length = _
    omega

/-- **What is read of a byte string has these bytes.** -/
theorem encode_of_decode? {bytes : List UInt8} {a : Embedding} (h : decode? bytes = some a) :
    encode a = bytes := by
  induction bytes using decode?.induct generalizing a with
  | case1 =>
    obtain rfl : [] = a := Option.some.inj h
    rfl
  | case2 b₀ b₁ b₂ b₃ rest ih =>
    rw [decode?] at h
    obtain ⟨a', ha', rfl⟩ := Option.map_eq_some_iff.mp h
    rw [encode_cons, wordBytes_word, ih ha']
    rfl
  | case3 bytes hnil hcons =>
    rw [decode?] at h
    · cases h
    · exact hnil
    · exact hcons

/-- **Just the byte strings that are no whole number of words are refused.** -/
theorem decode?_eq_none_iff {bytes : List UInt8} : decode? bytes = none ↔ ¬ 4 ∣ bytes.length := by
  induction bytes using decode?.induct with
  | case1 => exact iff_of_false nofun (by simp)
  | case2 b₀ b₁ b₂ b₃ rest ih =>
    rw [decode?, Option.map_eq_none_iff, ih]
    simp only [List.length_cons]
    omega
  | case3 bytes hnil hcons =>
    rw [decode?]
    · refine iff_of_true rfl ?_
      rcases bytes with - | ⟨b₀, - | ⟨b₁, - | ⟨b₂, - | ⟨b₃, rest⟩⟩⟩⟩
      · exact absurd rfl hnil
      · simp
      · simp
      · simp
      · exact absurd rfl (hcons b₀ b₁ b₂ b₃ rest)
    · exact hnil
    · exact hcons

/-! ### The codec -/

lemma decode_eq_ok_iff {bytes : List UInt8} {a : Embedding} :
    decode bytes = .ok a ↔ decode? bytes = some a := by
  unfold decode
  cases decode? bytes <;> simp

lemma decode_eq_error_iff {bytes : List UInt8} {e : Fault} :
    decode bytes = .error e ↔
      e = .serialization "Invalid embedding bytes length" ∧ decode? bytes = none := by
  unfold decode
  cases decode? bytes <;> simp [eq_comm]

/-- **Bytes keep an embedding bit for bit.** Every embedding is read again from its bytes, four for
each component. A byte string is refused just if its length is no multiple of four, and any other is
that of the embedding which is read of it. -/
theorem encode_decode (a : Embedding) (bytes : List UInt8) (e : Fault) :
    (encode a).length = 4 * a.length ∧ decode (encode a) = .ok a ∧
    (decode bytes = .error e ↔
      e = .serialization "Invalid embedding bytes length" ∧ ¬ 4 ∣ bytes.length) ∧
    ((∃ a', decode bytes = .ok a' ∧ encode a' = bytes) ↔ 4 ∣ bytes.length) := by
  refine ⟨length_encode a, decode_eq_ok_iff.mpr (decode?_encode a), ?_, ?_⟩
  · rw [decode_eq_error_iff, decode?_eq_none_iff]
  · constructor
    · rintro ⟨a', -, rfl⟩
      exact ⟨a'.length, length_encode a'⟩
    · intro hlength
      cases h : decode? bytes with
      | none => exact absurd hlength (decode?_eq_none_iff.mp h)
      | some a' => exact ⟨a', decode_eq_ok_iff.mpr h, encode_of_decode? h⟩

/-- Infinities, NaNs with payloads, both zeros and the least number come back. -/
example : decode (encode [⟨0x7f800000⟩, ⟨0xff812345⟩, ⟨0x80000000⟩, ⟨0⟩, ⟨1⟩]) =
    .ok [⟨0x7f800000⟩, ⟨0xff812345⟩, ⟨0x80000000⟩, ⟨0⟩, ⟨1⟩] := by
  decide

end SemanticStore.Embedding.Blob
