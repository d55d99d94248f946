import SemanticStore.Collection
import SemanticStore.Partition
import SemanticStore.Settings.Embedder
import SemanticStore.Store.Basic

/-!
# Store settings

How a store is to be opened: its backend, the tenant's partition, the defaults of the store and the
embedder. The settings have one form, a record of named fields, which is read and written in JSON
and in YAML.
-/

namespace SemanticStore

inductive BackendKind where
  | memory
  | sqlite
deriving DecidableEq, Repr

namespace BackendKind

def name : BackendKind → String
  | memory => "memory"
  | sqlite => "sqlite"

def ofName? : String → Option BackendKind
  | "memory" => some memory
  | "sqlite" => some sqlite
  | _ => none

end BackendKind

structure StoreSettings where
  backend : BackendKind
  /-- the database file -/
  path : Option String
  partition : Partition
  metric : Metric
  limit : Nat
  embedder : EmbedderSettings

namespace StoreSettings

/-- The settings where none are given at all. -/
def default : StoreSettings := ⟨.memory, none, .default, .cosine, defaultLimit, .default⟩

def fieldNames : List String :=
  ["backend", "path", "partition_key", "distance_metric", "n_results", "embedding"]

/-- Settings that are not given have their default. -/
def decode? {ν : Type} [Structured ν] (v : ν) : Option StoreSettings := do
  let fields ← Structured.fields? fieldNames v
  let backend ← Structured.optional fields "backend"
    (fun v => (Structured.alternative? v).bind BackendKind.ofName?) default.backend
  let path ← Structured.optional fields "path" (Structured.nullable Structured.text?) none
  let partition ← Structured.optional fields "partition_key" Partition.decode? default.partition
  let metric ← Structured.optional fields "distance_metric" Collection.metric? default.metric
  let limit ← Structured.optional fields "n_results" Structured.natural? default.limit
  let embedder ← Structured.optional fields "embedding" (EmbedderSettings.decode? 1) .default
  some ⟨backend, path, partition, metric, limit, embedder⟩

/-- The settings as a JSON text. -/
def ofJsonText? (text : String) : Option StoreSettings :=
  (Json.Raw.ofText? text).bind decode?

/-- The settings in the order in which they are written; a path that is not set is left out. -/
def members (s : StoreSettings) : List (String × Json) :=
  [("backend", .string s.backend.name)]
    ++ (match s.path with
        | some p => [("path", .string p)]
        | none => [])
    ++ [("partition_key", s.partition.toJson), ("distance_metric", .string s.metric.name),
        ("n_results", EmbedderSettings.natJson s.limit),
        ("embedding", .object s.embedder.members)]

def toJson (s : StoreSettings) : Json := .object s.members

end StoreSettings

end SemanticStore
