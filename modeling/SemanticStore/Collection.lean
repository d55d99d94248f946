import SemanticStore.Metric
import SemanticStore.Structured
import SemanticStore.Timestamp

/-!
# Collections

The descriptor of a collection, with the number of documents it held when it was read.
-/

namespace SemanticStore

/-- A collection's descriptor and size. -/
structure Collection where
  name : String
  /-- the length of every embedding in it, fixed by the first one stored -/
  dimension : Option Nat
  metric : Metric
  createdAt : Timestamp
  count : Nat
deriving DecidableEq

namespace Collection

/-- A new collection holds nothing and takes embeddings of any length. -/
def fresh (name : String) (metric : Metric) (createdAt : Timestamp) : Collection :=
  ⟨name, none, metric, createdAt, 0⟩

/-! ### Decoding -/

open Json Structured

/-- The metric of exactly this name. -/
def metric? {ν : Type} [Structured ν] (v : ν) : Option Metric :=
  (alternative? v).bind Metric.ofName?

/-- A collection as a JSON text; the count may be missing. -/
def ofJsonText? (text : String) : Option Collection := do
  let v ← Raw.ofText? text
  let fields ← v.fields?
    ["name", "embedding_dimension", "distance_metric", "created_at", "document_count"]
  let name ← required fields "name" Raw.text?
  let dimension ← optional fields "embedding_dimension" (nullable natural?) none
  let metric ← required fields "distance_metric" metric?
  let createdAt ← required fields "created_at" fun v => v.text?.bind Timestamp.parseLoose?
  let count ← optional fields "document_count" natural? 0
  some ⟨name, dimension, metric, createdAt, count⟩

end Collection

end SemanticStore
