import SemanticStore.Action
import SemanticStore.Embedding.Basic

/-!
# Embedders

An embedder turns texts into embeddings. Nothing is assumed of what it answers: it may fail, give
too many or too few embeddings, or embeddings of any length, and its answer may depend on the calls
made before.
-/

namespace SemanticStore

/-- The batches of texts that embedders have been called with, oldest first. -/
abbrev Calls := List (List String)

structure Embedder where
  /-- what kind of embedder it is -/
  provider : String
  model : String
  /-- the length of the embeddings it is meant to give -/
  dimensions : Nat
  /-- its answer to a batch of texts, after earlier calls -/
  answer : Calls → List String → Except Fault (List Embedding)

namespace Embedder

def call (e : Embedder) (texts : List String) : Action Calls (List Embedding) :=
  .of fun calls => (e.answer calls texts, calls ++ [texts])

end Embedder

end SemanticStore
