import SemanticStore.Backend.Basic
import SemanticStore.Body
import SemanticStore.Embedding.Blob

/-!
# The backend on two tables

Collections and documents are rows of two database tables. A row gets the next sequence number of
its table, numbers are never used again, and no two rows have the same key: partition and name of a
collection, partition, collection and id of a document. What rows hold is checked where they are
read, so damaged rows are reported and never guessed at. A statement that names a table that is not
there fails.
-/

namespace SemanticStore

/-- A value in a column for integers. -/
inductive Cell where
  | null
  | integer (n : Int)
  /-- a value that is no integer -/
  | foreign
deriving DecidableEq

namespace Cell

/-- White space that may stand around a number. -/
def isPadding (c : Char) : Bool :=
  c = ' ' || c = '\t' || c = '\n' || c = '\x0b' || c = '\x0c' || c = '\r'

/-- The integer that digits write, perhaps with a fraction of zeros. -/
def magnitude? (s : List Char) : Option Nat :=
  match Decimal.spanDigits s with
  | ([], _) => none
  | (digits, []) => some (Decimal.ofDigits 0 digits)
  | (digits, c :: fraction) =>
      if c = '.' && fraction.all (· = '0') then some (Decimal.ofDigits 0 digits) else none

/-- What a text becomes in a column for integers: an integer if it looks like one and fits. -/
def ofText (s : String) : Cell :=
  let inner := ((s.toList.dropWhile isPadding).reverse.dropWhile isPadding).reverse
  let written : Option Int := match inner with
    | '+' :: rest => (magnitude? rest).map Int.ofNat
    | '-' :: rest => (magnitude? rest).map fun n => -(n : Int)
    | rest => (magnitude? rest).map Int.ofNat
  match written.bind SignedInt.ofInt? with
  | some n => integer n.val
  | none => foreign

end Cell

structure CollectionRow where
  seq : Nat
  partition : String
  name : String
  dimension : Cell
  metric : String
  createdAt : String

structure DocumentRow where
  seq : Nat
  partition : String
  collection : String
  id : String
  body : String
  embedding : Option (List UInt8)

/-- A table: its rows and the last sequence number given out. -/
structure Table (ρ : Type) where
  rows : List ρ
  lastSeq : Nat

def Table.empty {ρ : Type} : Table ρ := ⟨[], 0⟩

/-- The database: its tables, as far as they are there. -/
structure Tables where
  collections : Option (Table CollectionRow)
  documents : Option (Table DocumentRow)

namespace CollectionRow

def At (a : Address) (r : CollectionRow) : Prop := r.partition = a.partition ∧ r.name = a.name

instance (a : Address) (r : CollectionRow) : Decidable (r.At a) := by unfold At; infer_instance

end CollectionRow

namespace DocumentRow

def In (a : Address) (r : DocumentRow) : Prop :=
  r.partition = a.partition ∧ r.collection = a.name

instance (a : Address) (r : DocumentRow) : Decidable (r.In a) := by unfold In; infer_instance

def At (a : Address) (id : String) (r : DocumentRow) : Prop := r.In a ∧ r.id = id

instance (a : Address) (id : String) (r : DocumentRow) : Decidable (r.At a id) := by
  unfold At; infer_instance

end DocumentRow

namespace Tables

def empty : Tables := ⟨some .empty, some .empty⟩

def ensure (t : Tables) : Tables :=
  ⟨some (t.collections.getD .empty), some (t.documents.getD .empty)⟩

/-! ### Columns -/

/-- Dimensions of `2 ^ 63` and more are kept as the negative number with the same 64 bits. -/
def dimensionCell : Option Nat → Cell
  | none => .null
  | some n => .integer (if 0x8000000000000000 ≤ n ∧ n < 0x10000000000000000 then (n : Int) - 0x10000000000000000 else n)

/-- The dimension in a cell; none if the cell holds no integer. -/
def dimension? : Cell → Option (Option Nat)
  | .null => some none
  | .integer n => some (some (if n < 0 then n + 0x10000000000000000 else n).toNat)
  | .foreign => none

/-! ### Statements -/

/-- A step of an operation failed because its statement names a table that is not there. -/
def missingTable (step table : String) : Fault :=
  .backend (step ++ ": no such table: " ++ table)

/-- The table of collections, for a statement of this step. -/
def collectionTable (step : String) (t : Tables) : Except Fault (Table CollectionRow) :=
  match t.collections with
  | some table => .ok table
  | none => .error (missingTable step "collections")

/-- The table of documents, for a statement of this step. -/
def documentTable (step : String) (t : Tables) : Except Fault (Table DocumentRow) :=
  match t.documents with
  | some table => .ok table
  | none => .error (missingTable step "documents")

/-- The rows of a collection's documents, by sequence number. -/
def rowsOf (a : Address) (documents : Table DocumentRow) : List DocumentRow :=
  (documents.rows.filter fun r => r.In a).mergeSort fun r s => r.seq ≤ s.seq

def countOf (a : Address) (documents : Table DocumentRow) : Nat :=
  documents.rows.countP fun r => r.In a

/-- The collection a row describes, which holds `count` documents. `step` is the step that reads the
row. -/
def readCollection (step : String) (count : Nat) (r : CollectionRow) : Except Fault Collection :=
  match dimension? r.dimension with
  | none => .error (.backend (step ++ ": embedding_dimension is not an integer"))
  | some dimension => do
      let metric ← Metric.parse r.metric
      match Timestamp.parse? r.createdAt with
      | none => .error (.serialization ("Invalid created_at: " ++ r.createdAt))
      | some createdAt => .ok ⟨r.name, dimension, metric, createdAt, count⟩

def readDocument (r : DocumentRow) : Except Fault Document :=
  match r.embedding with
  | none => Body.decode r.id r.body none
  | some bytes =>
      match Embedding.Blob.decode? bytes with
      | none => .error (.serialization "Invalid embedding bytes length")
      | some e => Body.decode r.id r.body (some e)

def addressOf (r : CollectionRow) : Address := ⟨r.partition, r.name⟩

/-! ### Operations -/

def hasCollection (a : Address) (t : Tables) : Except Fault Bool := do
  let collections ← collectionTable "Failed to check collection" t
  .ok (collections.rows.any fun r => r.At a)

/-- Fails if there is no collection at the address. -/
def require (a : Address) (t : Tables) : Except Fault Unit := do
  if ← hasCollection a t then .ok () else .error (.collectionMissing a.display)

def collection? (a : Address) (t : Tables) : Except Fault (Option Collection) := do
  let step := "Failed to read collection"
  let collections ← collectionTable step t
  let documents ← documentTable step t
  match collections.rows.find? fun r => r.At a with
  | none => .ok none
  | some r => (readCollection step (countOf (addressOf r) documents) r).map some

def create (a : Address) (c : Collection) (t : Tables) : Except Fault Tables := do
  if ← hasCollection a t then .error (.collectionPresent a.display)
  else
    let step := "Failed to create collection"
    let collections ← collectionTable step t
    if collections.rows.any fun r => r.At a then
      .error (.backend (step ++ ": UNIQUE constraint failed"))
    else
      let seq := collections.lastSeq + 1
      let row : CollectionRow :=
        ⟨seq, a.partition, a.name, dimensionCell c.dimension, c.metric.name,
          c.createdAt.renderNumeric⟩
      .ok { t with collections := some ⟨collections.rows ++ [row], seq⟩ }

def redescribe (a : Address) (c : Collection) (t : Tables) : Except Fault Tables := do
  let collections ← collectionTable "Failed to update collection" t
  if collections.rows.any fun r => r.At a then
    let rows := collections.rows.map fun r =>
      if r.At a then
        { r with
          dimension := dimensionCell c.dimension
          metric := c.metric.name
          createdAt := c.createdAt.renderNumeric }
      else r
    .ok { t with collections := some { collections with rows := rows } }
  else .error (.collectionMissing a.display)

def drop (a : Address) (t : Tables) : Except Fault (Bool × Tables) := do
  let documents ← documentTable "Failed to delete documents" t
  let collections ← collectionTable "Failed to delete collection" t
  .ok (collections.rows.any fun r => r.At a,
    ⟨some { collections with rows := collections.rows.filter fun r => ¬ r.At a },
     some { documents with rows := documents.rows.filter fun r => ¬ r.In a }⟩)

def collectionsOf (partition : String) (t : Tables) : Except Fault (List Collection) := do
  let step := "Failed to prepare query"
  let collections ← collectionTable step t
  let documents ← documentTable step t
  let rows := (collections.rows.filter fun r => r.partition = partition).mergeSort
    fun r s => r.seq ≤ s.seq
  rows.mapM fun r =>
    readCollection "Failed to read collection row" (countOf (addressOf r) documents) r

def hasDocument (a : Address) (id : String) (t : Tables) : Except Fault Bool := do
  require a t
  let documents ← documentTable "Failed to check document" t
  .ok (documents.rows.any fun r => r.At a id)

def document? (a : Address) (id : String) (t : Tables) : Except Fault (Option Document) := do
  require a t
  let documents ← documentTable "Failed to read document" t
  match documents.rows.find? fun r => r.At a id with
  | none => .ok none
  | some r => (readDocument r).map some

/-- Rewrites the row with this key, or adds one under the next sequence number. That number is used up
even where a row is rewritten. -/
def upsert (a : Address) (id body : String) (embedding : Option (List UInt8))
    (documents : Table DocumentRow) : Table DocumentRow :=
  let seq := documents.lastSeq + 1
  if documents.rows.any fun r => r.At a id then
    let rows := documents.rows.map fun r =>
      if r.At a id then { r with body := body, embedding := embedding } else r
    ⟨rows, seq⟩
  else ⟨documents.rows ++ [⟨seq, a.partition, a.name, id, body, embedding⟩], seq⟩

def put (a : Address) (d : Document) (t : Tables) : Except Fault Tables := do
  require a t
  let documents ← documentTable "Failed to write document" t
  .ok { t with
    documents := some <|
      upsert a d.id (Body.encode d.content d.metadata) (d.embedding.map Embedding.Blob.encode)
        documents }

def remove (a : Address) (id : String) (t : Tables) : Except Fault (Bool × Tables) := do
  require a t
  let documents ← documentTable "Failed to delete document" t
  .ok (documents.rows.any fun r => r.At a id,
    { t with
      documents := some { documents with rows := documents.rows.filter fun r => ¬ r.At a id } })

def documentsOf (a : Address) (t : Tables) : Except Fault (List Document) := do
  require a t
  let documents ← documentTable "Failed to prepare query" t
  (rowsOf a documents).mapM readDocument

def count (a : Address) (t : Tables) : Except Fault Nat := do
  require a t
  let documents ← documentTable "Failed to count documents" t
  .ok (countOf a documents)

instance : Backend Tables where
  kind := "sqlite"
  hasCollection := hasCollection
  collection? := collection?
  create := create
  redescribe := redescribe
  drop := drop
  collections := collectionsOf
  hasDocument := hasDocument
  document? := document?
  put := put
  remove := remove
  documents := documentsOf
  count := count

end Tables

end SemanticStore
