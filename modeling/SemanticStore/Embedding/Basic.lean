import SemanticStore.Embedding.Scalar

/-!
# Embeddings

An embedding is a list of components. Sums run from left to right and start at `-0`, so the sum of
no terms is `-0`.
-/

namespace SemanticStore

/-- A text's vector. -/
abbrev Embedding := List Scalar

namespace Embedding

/-- The sum of the terms, from left to right. -/
def sum (terms : List Scalar) : Scalar :=
  terms.foldl (· + ·) Scalar.negZero

/-- The inner product of two embeddings, up to the end of the shorter one. -/
def dot (a b : Embedding) : Scalar :=
  sum (a.zipWith (· * ·) b)

/-- The Euclidean length. -/
def norm (a : Embedding) : Scalar :=
  (sum (a.map fun x => x * x)).sqrt

/-- Scaled to unit length where the length is positive, else unchanged. -/
def normalize (a : Embedding) : Embedding :=
  if Scalar.zero.lt a.norm then a.map (· / a.norm) else a

@[simp] theorem length_normalize (a : Embedding) : a.normalize.length = a.length := by
  unfold normalize
  split
  · rw [List.length_map]
  · rfl

def isFinite (a : Embedding) : Bool :=
  a.all Scalar.isFinite

/-- The embedding of `n` positive zeros. -/
def zeros (n : Nat) : Embedding :=
  List.replicate n Scalar.zero

end Embedding

end SemanticStore
