import SemanticStore.Document
import SemanticStore.Metric

/-!
# Ranking

Documents in the order of their distance to a query. Documents at equal distance keep their order,
documents without an embedding are left out, and a threshold is applied to the nearest ones that are
left after cutting the list.
-/

namespace SemanticStore

/-- A document with its distance to a query. -/
abbrev Hit := Document × Scalar

namespace Ranking

/-- The distance of every document that has an embedding, in the order of the documents. -/
def score (metric : Metric) (query : Embedding) (documents : List Document) : List Hit :=
  documents.filterMap fun d => d.embedding.map fun e => (d, metric.distance query e)

/-- The order of hits: by distance, in the total order of bit patterns. -/
def nearer (a b : Hit) : Bool := a.2.rank ≤ b.2.rank

/-- The distance passes the threshold, if there is one. -/
def within (threshold : Option Scalar) (hit : Hit) : Bool :=
  match threshold with
  | none => true
  | some t => hit.2.le t

/-- The `limit` nearest documents that pass the threshold, nearest first. -/
def rank (metric : Metric) (query : Embedding) (limit : Nat) (threshold : Option Scalar)
    (documents : List Document) : List Hit :=
  (((score metric query documents).mergeSort nearer).take limit).filter (within threshold)

end Ranking

end SemanticStore
