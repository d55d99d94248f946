import SemanticStore.Fault
import SemanticStore.Structured

/-!
# Embedder settings

Which embedder a store uses, and how. Every setting has a default. Options that only one kind of
embedder knows are kept as they are given.
-/

namespace SemanticStore

structure EmbedderSettings where
  provider : String
  model : String
  dimensions : Nat
  /-- embeddings are scaled to unit length -/
  normalize : Bool
  batchSize : Nat
  /-- what is set for this kind of embedder alone -/
  options : Json

namespace EmbedderSettings

/-- The settings where none are given at all. -/
def default : EmbedderSettings := ⟨"trigram", "trigram-v1", 384, true, 100, .object []⟩

/-- Refuses settings that no embedder can honor. -/
def validate (s : EmbedderSettings) : Except Fault Unit :=
  if s.dimensions = 0 then
    .error (.configuration "Embedding dimensions must be greater than zero")
  else if s.batchSize = 0 then
    .error (.configuration "Embedding batch_size must be greater than zero")
  else .ok ()

def option? (key : String) (s : EmbedderSettings) : Option String :=
  (s.options.member? key).bind Json.string?

/-! ### JSON -/

def fieldNames : List String :=
  ["provider", "model", "dimensions", "normalize", "batch_size", "provider_config"]

/-- Settings found below `enclosing` containers. Those that are not given have their default, and
options that are not given are null. -/
def decode? {ν : Type} [Structured ν] (enclosing : Nat) (v : ν) : Option EmbedderSettings := do
  let fields ← Structured.fields? fieldNames v
  let provider ← Structured.optional fields "provider" Structured.text? default.provider
  let model ← Structured.optional fields "model" Structured.text? default.model
  let dimensions ← Structured.optional fields "dimensions" Structured.natural? default.dimensions
  let normalize ← Structured.optional fields "normalize" Structured.bool? default.normalize
  let batchSize ← Structured.optional fields "batch_size" Structured.natural? default.batchSize
  let options ←
    Structured.optional fields "provider_config" (Structured.json? (enclosing + 1)) .null
  some ⟨provider, model, dimensions, normalize, batchSize, options⟩

/-- A natural number as a JSON value; words of 64 bits are integers. -/
def natJson (n : Nat) : Json :=
  (Json.ofInt? n).getD (.number (.real (Float.ofNat n)))

/-- The settings in the order in which they are written. -/
def members (s : EmbedderSettings) : List (String × Json) :=
  [("provider", .string s.provider), ("model", .string s.model),
   ("dimensions", natJson s.dimensions), ("normalize", .bool s.normalize),
   ("batch_size", natJson s.batchSize), ("provider_config", s.options)]

end EmbedderSettings

end SemanticStore
