import SemanticStore.Embedding.Basic
import SemanticStore.Structured

/-!
# Documents

A document is a text with an id, optional metadata and, once it is indexed, an embedding.
-/

namespace SemanticStore

structure Document where
  id : String
  content : String
  metadata : Option Members
  embedding : Option Embedding

namespace Document

/-! ### Decoding -/

open Json Structured

/-- The component a number stands for, rounded to single precision. -/
def component? : Raw → Option Scalar
  | .number n => n.value?.map fun
      | .integer n => Scalar.ofInt n.val
      | .real x => Scalar.ofFloat x
  | _ => none

def embedding? (v : Raw) : Option Embedding := do
  (← v.items?).mapM component?

/-- An object, found below `enclosing` containers. -/
def metadata? (enclosing : Nat) (v : Raw) : Option Members :=
  match v.value? (Raw.maxDepth - enclosing) with
  | some (.object members) => some members
  | _ => none

/-- A document as a JSON text; metadata and embedding may be missing or null. -/
def ofJsonText? (text : String) : Option Document := do
  let v ← Raw.ofText? text
  let fields ← v.fields? ["id", "content", "metadata", "embedding"]
  let id ← required fields "id" Raw.text?
  let content ← required fields "content" Raw.text?
  let metadata ← optional fields "metadata" (nullable (metadata? 1)) none
  let embedding ← optional fields "embedding" (nullable embedding?) none
  some ⟨id, content, metadata, embedding⟩

/-- The names of the fields that the JSON form of a document has. -/
def fieldNames (d : Document) : List String :=
  ["id", "content"] ++ (if d.metadata.isSome then ["metadata"] else [])
    ++ (if d.embedding.isSome then ["embedding"] else [])

end Document

end SemanticStore
