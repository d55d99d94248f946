import SemanticStore.Embedding.Basic
import SemanticStore.Fault

/-!
# Embeddings as bytes

Each component is written as its four bytes, lowest first. `decode (encode v)` is `v` bit for bit,
and `decode` refuses exactly the byte strings whose length is no multiple of four.
-/

namespace SemanticStore.Embedding.Blob

/-- The four bytes of a word, lowest first. -/
def wordBytes (w : UInt32) : List UInt8 :=
  [w.toUInt8, (w >>> 8).toUInt8, (w >>> 16).toUInt8, (w >>> 24).toUInt8]

/-- The word of four bytes, lowest first. -/
def word (b₀ b₁ b₂ b₃ : UInt8) : UInt32 :=
  b₀.toUInt32 ||| (b₁.toUInt32 <<< 8) ||| (b₂.toUInt32 <<< 16) ||| (b₃.toUInt32 <<< 24)

def encode (a : Embedding) : List UInt8 :=
  a.flatMap fun x => wordBytes x.bits

/-- The embedding of a byte string, if its bytes make up whole components. -/
def decode? : List UInt8 → Option Embedding
  | [] => some []
  | b₀ :: b₁ :: b₂ :: b₃ :: rest => (decode? rest).map (⟨word b₀ b₁ b₂ b₃⟩ :: ·)
  | _ => none

/-- The embedding of a byte string, or the fault that its bytes do not make up whole components. -/
def decode (bytes : List UInt8) : Except Fault Embedding :=
  match decode? bytes with
  | some a => .ok a
  | none => .error (.serialization "Invalid embedding bytes length")

end SemanticStore.Embedding.Blob
