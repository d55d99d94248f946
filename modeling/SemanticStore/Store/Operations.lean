import SemanticStore.Store.Basic
import SemanticStore.Store.Holdings
import SemanticStore.Store.Indexing
import SemanticStore.Text.Blank

/-!
# What a store does

The operations of a store on a world. One that works on a collection takes the collection's lock;
embedders are called before, and the collection is looked up again under the lock.
-/

namespace SemanticStore.Store

variable {σ : Type} [Backend σ]

/-! ### Collections -/

/-- The descriptor of a collection, which has to be there. -/
def find (store : Store) (name : String) : Action σ Collection := do
  match ← .read (Backend.collection? (store.address name)) with
  | some c => return c
  | none => .fail (.collectionMissing name)

/-- Adds an empty collection at an address that has none. -/
def add (store : Store) (now : Timestamp) (name : String) : Action σ Collection := do
  let c := Collection.fresh name store.metric now
  .write (Backend.create (store.address name) c)
  return c

/-- Creates a collection. One that is there is replaced by an empty one with `overwrite`, returned
as it is with `reuse`, and else refused. -/
def createIn (store : Store) (now : Timestamp) (name : String) (overwrite reuse : Bool) :
    Action σ Collection := do
  if Text.isBlankText name then .fail (.other "Collection name must not be empty")
  match ← .read (Backend.collection? (store.address name)) with
  | none => add store now name
  | some c =>
      if overwrite then
        let _ ← .change (Backend.drop (store.address name))
        add store now name
      else if reuse then return c
      else .fail (.collectionPresent name)

/-- Creates a collection at a time; see `createIn`. -/
def create (store : Store) (now : Timestamp) (name : String) (overwrite reuse : Bool) :
    Action (World σ) Collection := do
  World.lock (store.address name)
  World.onBackend (store.createIn now name overwrite reuse)

def describe (store : Store) (name : String) : Action (World σ) Collection := do
  World.lock (store.address name)
  World.onBackend (store.find name)

/-- Drops a collection with its documents, if it is there. -/
def drop (store : Store) (name : String) : Action (World σ) Unit := do
  World.lock (store.address name)
  let _ ← World.onBackend (.change (Backend.drop (store.address name)))

/-- The names of the collections of the partition, oldest first. -/
def names (store : Store) : Action (World σ) (List String) := do
  let found ← World.onBackend (.read (Backend.collections store.partition.label))
  return found.map (·.name)

def hasCollection (store : Store) (name : String) : Action (World σ) Bool :=
  World.onBackend (.read (Backend.hasCollection (store.address name)))

/-! ### Documents -/

/-- Embeds what lacks an embedding and hands the batch over to `write` under the lock. -/
def index (store : Store) (name : String) (documents : List Document)
    (write : Address → Collection → List Document → Action σ Unit) : Action (World σ) Unit := do
  let _ ← World.onBackend (store.find name)
  let prepared ← World.onCalls (Indexing.embedMissing store.embedder store.batchSize documents)
  World.lock (store.address name)
  let target ← World.onBackend (store.find name)
  World.onBackend (write (store.address name) target prepared)

/-- Stores documents; without `replacing`, every id has to be new. -/
def insert (store : Store) (name : String) (replacing : Bool) (documents : List Document) :
    Action (World σ) Unit :=
  store.index name documents fun a c => Holdings.insert a c replacing

/-- Replaces stored documents; metadata stays where an update brings none. -/
def update (store : Store) (name : String) (documents : List Document) : Action (World σ) Unit :=
  store.index name documents Holdings.update

/-- Runs an action on the documents of a collection, which has to be there, under its lock. -/
def onHoldings {α : Type} (store : Store) (name : String) (action : Address → Action σ α) :
    Action (World σ) α := do
  World.lock (store.address name)
  let _ ← World.onBackend (store.find name)
  World.onBackend (action (store.address name))

/-- Takes out documents by id; ids that are not stored do not matter. -/
def delete (store : Store) (name : String) (ids : List String) : Action (World σ) Unit := do
  let _ ← store.onHoldings name fun a => Holdings.delete a ids

/-- All documents, or those with the given ids, in the order of the collection. -/
def select (store : Store) (name : String) (ids : Option (List String)) :
    Action (World σ) (List Document) :=
  store.onHoldings name fun a => Holdings.select a ids

def count (store : Store) (name : String) : Action (World σ) Nat :=
  store.onHoldings name Holdings.count

/-! ### Retrieval -/

/-- The documents nearest to each query, one list per query. -/
def retrieve (store : Store) (name : String) (queries : List String) (limit : Option Nat)
    (threshold : Option Scalar) : Action (World σ) (List (List Hit)) := do
  let _ ← World.onBackend (store.find name)
  let embeddings ← World.onCalls (Indexing.embedQueries store.embedder queries)
  World.lock (store.address name)
  let target ← World.onBackend (store.find name)
  World.onBackend <|
    Holdings.retrieve (store.address name) target embeddings (limit.getD store.limit) threshold

def search (store : Store) (name query : String) : Action (World σ) (List Hit) := do
  let found ← store.retrieve name [query] none none
  return found.headD []

end SemanticStore.Store
