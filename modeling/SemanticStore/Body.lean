import SemanticStore.Document
import SemanticStore.Fault
import SemanticStore.Json.Writer

/-!
# Stored bodies

A table keeps the content and the metadata of a document as one JSON text, the body, which names the
version of its format. `Body.decode?` accepts an object with the version, the content and at most
one metadata member in any order and among others, or an array of these two or three values.
-/

namespace SemanticStore.Body

open Json

/-- The version that bodies are written in. -/
def version : String := "1"

/-! ### Writing -/

def toJson (content : String) (metadata : Option Members) : Json :=
  .object <| [("v", .string version), ("content", .string content)] ++
    match metadata with
    | some m => [("metadata", .object m)]
    | none => []

def encode (content : String) (metadata : Option Members) : String :=
  (toJson content metadata).write

/-! ### Reading -/

/-- The values of one key among members in the order of the text. -/
def valuesOf (key : String) (members : List (String × Json)) : List Json :=
  (members.filter fun kv => kv.1 = key).map (·.2)

/-- Metadata is an object or null. -/
def metadataOf? : Json → Option (Option Members)
  | .object m => some (some m)
  | .null => some none
  | _ => none

/-- Content and metadata of a body given by its members, in the order of the text. -/
def ofMembers? (members : List (String × Json)) : Option (String × Option Members) :=
  match valuesOf "v" members, valuesOf "content" members, valuesOf "metadata" members with
  | [.string v], [.string content], [] => if v = version then some (content, none) else none
  | [.string v], [.string content], [m] =>
      if v = version then (metadataOf? m).map (content, ·) else none
  | _, _, _ => none

/-- Content and metadata of a body given by its values alone. -/
def ofItems? : List Json → Option (String × Option Members)
  | [.string v, .string content] => if v = version then some (content, none) else none
  | [.string v, .string content, m] =>
      if v = version then (metadataOf? m).map (content, ·) else none
  | _ => none

def decode? (body : String) : Option (String × Option Members) :=
  match Raw.ofText? body with
  | some (.object members) => (Raw.memberValues? (Raw.maxDepth - 1) members).bind ofMembers?
  | some (.array items) => (Raw.values? (Raw.maxDepth - 1) items).bind ofItems?
  | _ => none

/-- The document with this id, body and embedding. -/
def decode (id body : String) (embedding : Option Embedding) : Except Fault Document :=
  match decode? body with
  | some (content, metadata) => .ok ⟨id, content, metadata, embedding⟩
  | none => .error <| .serialization <|
      "Failed to decode document '" ++ id ++ "': not a body of version " ++ version

end SemanticStore.Body
