import SemanticStore.Embedding.Basic
import SemanticStore.Fault

/-!
# Metrics

The two measures by which documents are ranked. A distance is never NaN: where the arithmetic gives
NaN the distance is infinite, so such a document comes last.
-/

namespace SemanticStore

/-- How the distance of two embeddings is measured. -/
inductive Metric where
  /-- one minus the cosine of the angle, at least zero -/
  | cosine
  /-- the length of the difference -/
  | euclidean
deriving DecidableEq, Repr, Inhabited

namespace Metric

def name : Metric → String
  | cosine => "cosine"
  | euclidean => "euclidean"

/-- The metric of exactly this name. -/
def ofName? : String → Option Metric
  | "cosine" => some cosine
  | "euclidean" => some euclidean
  | _ => none

/-- The metric a user names, in ASCII letters of any case; `l2` is another name of `euclidean`. -/
def parse (text : String) : Except Fault Metric :=
  let lower := String.ofList (text.toList.map Char.toLower)
  if lower = "l2" then .ok euclidean
  else match ofName? lower with
    | some metric => .ok metric
    | none => .error <| .configuration <|
        "Unknown distance metric: '" ++ lower ++ "'. Supported: cosine, euclidean"

/-! ### Distances -/

/-- The cosine of the angle between two embeddings; zero where one of them has length zero. -/
def cosineSimilarity (a b : Embedding) : Scalar :=
  if a.norm.numEq .zero || b.norm.numEq .zero then .zero
  else a.dot b / (a.norm * b.norm)

/-- Component by component numerically equal, and of one length. -/
def sameComponents : Embedding → Embedding → Bool
  | [], [] => true
  | x :: a, y :: b => x.numEq y && sameComponents a b
  | _, _ => false

/-- Equal embeddings are at distance zero, whatever their length; a similarity that rounding has
pushed above one counts as one. -/
def cosineDistance (a b : Embedding) : Scalar :=
  if sameComponents a b then .zero
  else
    let similarity := cosineSimilarity a b
    if similarity.isNaN then .nan
    else
      let d := Scalar.one - similarity
      if d.lt .zero then .zero else d

/-- The length of the difference, up to the end of the shorter embedding. -/
def euclideanDistance (a b : Embedding) : Scalar :=
  (Embedding.sum (a.zipWith (fun x y => (x - y) * (x - y)) b)).sqrt

/-- The distance of two embeddings, infinite where it is not a number. -/
def distance (metric : Metric) (a b : Embedding) : Scalar :=
  let d := match metric with
    | cosine => cosineDistance a b
    | euclidean => euclideanDistance a b
  if d.isNaN then .infinity else d

end Metric

end SemanticStore
