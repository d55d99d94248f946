import SemanticStore.Document
import SemanticStore.Embedder.Basic

/-!
# Indexing

Everything that calls an embedder: the documents of a batch that lack an embedding get one, a few
texts at a time, and the queries of a retrieval are embedded in one call.
-/

namespace SemanticStore.Indexing

/-- Cuts a list into runs of `n + 1` elements; the last one may be shorter. -/
def chunks {α : Type} (n : Nat) : List α → List (List α)
  | [] => []
  | a :: rest => (a :: rest.take n) :: chunks n (rest.drop n)
termination_by l => l.length
decreasing_by simp only [List.length_drop, List.length_cons]; omega

/-- Embeds one run of texts; as many embeddings have to come back. -/
def embedChunk (e : Embedder) (texts : List String) : Action Calls (List Embedding) := do
  let found ← e.call texts
  if found.length = texts.length then return found
  else .fail <| .embedding <|
    "Provider returned " ++ toString found.length ++ " embeddings for " ++ toString texts.length
      ++ " texts"

/-- Embeds run after run, up to the first that fails. -/
def embedChunks (e : Embedder) : List (List String) → Action Calls (List Embedding)
  | [] => return []
  | texts :: rest => do
      let found ← embedChunk e texts
      let more ← embedChunks e rest
      return found ++ more

/-- Gives the documents that lack an embedding the given ones, in order. -/
def fill : List Document → List Embedding → List Document
  | [], _ => []
  | d :: rest, found =>
      match d.embedding, found with
      | some _, found => d :: fill rest found
      | none, [] => d :: fill rest []
      | none, e :: found => { d with embedding := some e } :: fill rest found

/-- The contents of the documents that lack an embedding. -/
def pending (documents : List Document) : List String :=
  (documents.filter fun d => d.embedding.isNone).map (·.content)

/-- The documents, each with an embedding; at most `batchSize` texts are embedded at once. -/
def embedMissing (e : Embedder) (batchSize : Nat) (documents : List Document) :
    Action Calls (List Document) := do
  let found ← embedChunks e (chunks (batchSize - 1) (pending documents))
  return fill documents found

/-- The embeddings of queries, in one call; no queries need no call. -/
def embedQueries (e : Embedder) (queries : List String) : Action Calls (List Embedding) := do
  if queries.isEmpty then return []
  let found ← e.call queries
  if found.length = queries.length then return found
  else .fail <| .embedding <|
    "Provider returned " ++ toString found.length ++ " embeddings for " ++ toString queries.length
      ++ " queries"

end SemanticStore.Indexing
