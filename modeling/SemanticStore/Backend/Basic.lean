import SemanticStore.Collection
import SemanticStore.Document
import SemanticStore.Fault
import SemanticStore.Partition

/-!
# Backends

A backend keeps collection descriptors by address and documents by address and id. Each operation is
a function of the backend's state; one that fails has no new state, so it changes nothing. Documents
are listed in the order in which their ids were first put since they were last absent, collections
in the order of their creation.
-/

namespace SemanticStore

/-- The operations of a backend whose states have type `σ`. -/
class Backend (σ : Type) where
  /-- a short name for the kind of backend -/
  kind : String
  hasCollection : Address → σ → Except Fault Bool
  /-- the descriptor of a collection with its present number of documents -/
  collection? : Address → σ → Except Fault (Option Collection)
  /-- adds an empty collection; fails if there is one at the address -/
  create : Address → Collection → σ → Except Fault σ
  /-- replaces the descriptor of a collection -/
  redescribe : Address → Collection → σ → Except Fault σ
  /-- takes out a collection with its documents; tells whether it was there -/
  drop : Address → σ → Except Fault (Bool × σ)
  /-- the collections of a partition -/
  collections : String → σ → Except Fault (List Collection)
  hasDocument : Address → String → σ → Except Fault Bool
  document? : Address → String → σ → Except Fault (Option Document)
  /-- adds a document at the end, or replaces the one with its id in place -/
  put : Address → Document → σ → Except Fault σ
  /-- takes out a document; tells whether it was there -/
  remove : Address → String → σ → Except Fault (Bool × σ)
  documents : Address → σ → Except Fault (List Document)
  count : Address → σ → Except Fault Nat

end SemanticStore
