/-!
# Faults

The one error type of the library. A fault is one of ten kinds; `Fault.message` is its full text,
and `Fault.collectionMissing` and its neighbours name the causes that several operations share.
-/

namespace SemanticStore

/-- Why an operation did not succeed. -/
inductive Fault where
  /-- something the operation needs is not there -/
  | notFound (what : String)
  /-- a collection of that name is already there -/
  | alreadyExists (what : String)
  /-- an insert names an id that is stored, or names it twice -/
  | duplicateKey (collection id : String)
  /-- an embedding has another length than its collection's embeddings -/
  | dimensionMismatch (expected actual : Nat)
  /-- the storage below a backend failed -/
  | backend (text : String)
  /-- an embedder failed, or answered with something unusable -/
  | embedding (text : String)
  /-- a setting is wrong, or a settings file cannot be read or written -/
  | configuration (text : String)
  /-- a file operation failed -/
  | inputOutput (text : String)
  /-- stored or given text does not decode -/
  | serialization (text : String)
  /-- anything else -/
  | other (text : String)
deriving DecidableEq, Repr

namespace Fault

def message : Fault → String
  | notFound what => "Not found: " ++ what
  | alreadyExists what => "Already exists: " ++ what
  | duplicateKey collection id =>
      "Duplicate key '" ++ id ++ "' in collection '" ++ collection ++ "'"
  | dimensionMismatch expected actual =>
      "Dimension mismatch: expected " ++ toString expected ++ ", got " ++ toString actual
  | backend text => "Backend error: " ++ text
  | embedding text => "Embedding error: " ++ text
  | configuration text => "Configuration error: " ++ text
  | inputOutput text => "I/O error: " ++ text
  | serialization text => "Serialization error: " ++ text
  | other text => text

def isNotFound : Fault → Bool
  | notFound _ => true
  | _ => false

/-! ### Shared causes -/

def collectionMissing (name : String) : Fault :=
  notFound ("collection '" ++ name ++ "'")

def collectionPresent (name : String) : Fault :=
  alreadyExists ("collection '" ++ name ++ "'")

/-- These ids are not stored in the collection. -/
def documentsMissing (ids : List String) (collection : String) : Fault :=
  notFound ("documents [" ++ ", ".intercalate ids ++ "] in collection '" ++ collection ++ "'")

end Fault

end SemanticStore
