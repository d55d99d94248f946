import SemanticStore.Partition

/-!
# Locks

Every backend has a registry of locks, one for each address that has been asked for. A lock is known
by its place in the registry; entries are never taken out, so an address keeps its lock when its
collection goes and comes back.
-/

namespace SemanticStore

/-- The addresses that have a lock, in the order in which they were first asked for. -/
structure Locks where
  addresses : List Address

namespace Locks

def empty : Locks := ⟨[]⟩

def size (l : Locks) : Nat := l.addresses.length

def isEmpty (l : Locks) : Bool := l.addresses.isEmpty

/-- The lock of an address, as its place in the registry, which gets an entry if it has none. -/
def handle (a : Address) (l : Locks) : Nat × Locks :=
  match l.addresses.idxOf? a with
  | some i => (i, l)
  | none => (l.addresses.length, ⟨l.addresses ++ [a]⟩)

end Locks

end SemanticStore
