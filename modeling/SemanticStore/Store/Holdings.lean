import SemanticStore.Backend.Basic
import SemanticStore.Action
import SemanticStore.Ranking

/-!
# The holdings of a collection

Reading and writing the documents at an address. A batch is checked as a whole before the first
document is written, so a batch that is refused changes nothing.
-/

namespace SemanticStore.Holdings

variable {σ : Type} [Backend σ]

/-! ### Checking a batch -/

/-- Checks a batch against the dimension of its collection, if it has one, else against that of the
first document; the result is the dimension that all documents have. -/
def commonDimension : Option Nat → List Document → Except Fault (Option Nat)
  | dimension, [] => .ok dimension
  | dimension, d :: rest =>
      match d.embedding with
      | none => .error (.embedding ("Document '" ++ d.id ++ "' has no embedding"))
      | some e =>
          if !e.isFinite then
            .error <| .embedding <|
              "Document '" ++ d.id ++ "' has a non-finite embedding component"
          else
            match dimension with
            | none => commonDimension (some e.length) rest
            | some n =>
                if n = e.length then commonDimension dimension rest
                else .error (.dimensionMismatch n e.length)

/-- Checks a batch, and fixes the dimension of a collection that has none. -/
def settle (a : Address) (c : Collection) (documents : List Document) : Action σ Unit := do
  let dimension ← .lift (commonDimension c.dimension documents)
  match c.dimension, dimension with
  | none, some n => .write (Backend.redescribe a { c with dimension := some n })
  | _, _ => return ()

/-! ### Writing -/

def putAll (a : Address) : List Document → Action σ Unit
  | [] => return ()
  | d :: rest => do
      .write (Backend.put a d)
      putAll a rest

/-- Fails at the first document whose id is stored, or among `seen` and the documents before it. -/
def refuseDuplicates (a : Address) (c : Collection) (seen : List String) :
    List Document → Action σ Unit
  | [] => return ()
  | d :: rest => do
      if d.id ∈ seen then .fail (.duplicateKey c.name d.id)
      else if ← .read (Backend.hasDocument a d.id) then .fail (.duplicateKey c.name d.id)
      else refuseDuplicates a c (d.id :: seen) rest

/-- Stores documents that have embeddings. Without `replacing`, every id has to be new. -/
def insert (a : Address) (c : Collection) (replacing : Bool) (documents : List Document) :
    Action σ Unit := do
  if documents.isEmpty then return ()
  if !replacing then refuseDuplicates a c [] documents
  settle a c documents
  putAll a documents

/-- Looks up the documents of a batch: the ids that are not stored, and the others as they are to be
written, with the stored metadata where they bring none. -/
def merge (a : Address) : List Document → Action σ (List String × List Document)
  | [] => return ([], [])
  | d :: rest => do
      let stored ← .read (Backend.document? a d.id)
      let (missing, merged) ← merge a rest
      match stored with
      | none => return (d.id :: missing, merged)
      | some old =>
          let metadata := d.metadata.orElse fun _ => old.metadata
          return (missing, { d with metadata := metadata } :: merged)

/-- Replaces stored documents. Every id has to be stored. -/
def update (a : Address) (c : Collection) (documents : List Document) : Action σ Unit := do
  if documents.isEmpty then return ()
  let (missing, merged) ← merge a documents
  if !missing.isEmpty then .fail (.documentsMissing missing c.name)
  settle a c merged
  putAll a merged

/-- Takes out documents by id; the result is the number of those that were there. -/
def delete (a : Address) : List String → Action σ Nat
  | [] => return 0
  | id :: rest => do
      let found ← .change (Backend.remove a id)
      let more ← delete a rest
      return (if found then more + 1 else more)

/-! ### Reading -/

/-- All documents, or those whose id is among the given ones, in the order of the collection. -/
def select (a : Address) (ids : Option (List String)) : Action σ (List Document) := do
  let documents ← .read (Backend.documents a)
  match ids with
  | none => return documents
  | some ids => return documents.filter fun d => d.id ∈ ids

def count (a : Address) : Action σ Nat := .read (Backend.count a)

/-- Queries have to have the dimension of the collection, if it has one, and finite components. -/
def checkQueries (c : Collection) (queries : List Embedding) : Except Fault Unit :=
  match c.dimension.bind fun n => (queries.find? fun q => q.length ≠ n).map fun q => (n, q) with
  | some (n, q) => .error (.dimensionMismatch n q.length)
  | none =>
      if queries.all Embedding.isFinite then .ok ()
      else .error (.embedding "Query embedding has a non-finite component")

def retrieve (a : Address) (c : Collection) (queries : List Embedding) (limit : Nat)
    (threshold : Option Scalar) : Action σ (List (List Hit)) := do
  .lift (checkQueries c queries)
  let documents ← .read (Backend.documents a)
  return queries.map fun q => Ranking.rank c.metric q limit threshold documents

end SemanticStore.Holdings
