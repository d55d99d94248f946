import SemanticStore.Backend.Basic
import SemanticStore.Embedder.Basic
import SemanticStore.Locks

/-!
# Stores

A store gives one tenant a view of a backend: the collections of its partition, with one embedder
and the defaults for new collections and for retrieval. Several stores may share a backend, its
locks and a record of the calls to embedders; these make up a `World`.
-/

namespace SemanticStore

/-- How many documents a query finds at most if nothing is said. -/
def defaultLimit : Nat := 10

/-- How many texts are embedded at once if nothing is said. -/
def defaultBatchSize : Nat := 100

/-- A view of a backend. -/
structure Store where
  partition : Partition
  embedder : Embedder
  /-- the metric of collections it creates -/
  metric : Metric
  /-- how many documents a query finds at most if nothing is said -/
  limit : Nat
  /-- how many texts are embedded at once; zero counts as one -/
  batchSize : Nat

/-- A store with all defaults. -/
def Store.new (embedder : Embedder) : Store :=
  ⟨.default, embedder, .cosine, defaultLimit, defaultBatchSize⟩

def Store.address (store : Store) (name : String) : Address := .of store.partition name

/-- A backend with its locks, and the calls made to embedders. -/
structure World (σ : Type) where
  backend : σ
  locks : Locks
  calls : Calls

namespace World

variable {σ α : Type}

def opened (backend : σ) : World σ := ⟨backend, .empty, []⟩

/-- Runs an action on the backend. -/
def onBackend (action : Action σ α) : Action (World σ) α :=
  action.within World.backend fun b w => { w with backend := b }

/-- Runs an action on the record of calls. -/
def onCalls (action : Action Calls α) : Action (World σ) α :=
  action.within World.calls fun c w => { w with calls := c }

/-- Takes the lock of an address. -/
def lock (a : Address) : Action (World σ) Unit :=
  .of fun w => (.ok (), { w with locks := (w.locks.handle a).2 })

end World

end SemanticStore
