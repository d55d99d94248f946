import SemanticStore.Backend.Basic
import SemanticStore.Keyed

/-!
# The backend in memory

A shelf holds one collection: its documents by ascending sequence number, and for each id the
sequence number of its document. Shelves are looked up by address, and listed by the sequence number
of their creation.
-/

namespace SemanticStore

/-- One collection in memory. -/
structure Shelf where
  descriptor : Collection
  /-- when the collection was created, counted over the whole backend -/
  createdSeq : Nat
  /-- the sequence number of the next new document -/
  nextSeq : Nat
  order : List (Nat × Document)
  positions : List (String × Nat)

namespace Shelf

def empty (descriptor : Collection) (createdSeq : Nat) : Shelf :=
  ⟨descriptor, createdSeq, 0, [], []⟩

/-- The descriptor with the present number of documents. -/
def snapshot (s : Shelf) : Collection := { s.descriptor with count := s.order.length }

def documents (s : Shelf) : List Document := s.order.map (·.2)

def document? (id : String) (s : Shelf) : Option Document :=
  (Keyed.find? id s.positions).bind fun seq => Keyed.find? seq s.order

def put (d : Document) (s : Shelf) : Shelf :=
  match Keyed.find? d.id s.positions with
  | some seq => { s with order := Keyed.putAscending seq d s.order }
  | none =>
      { s with
        nextSeq := s.nextSeq + 1
        order := Keyed.putAscending s.nextSeq d s.order
        positions := Keyed.put d.id s.nextSeq s.positions }

def remove (id : String) (s : Shelf) : Bool × Shelf :=
  match Keyed.find? id s.positions with
  | some seq =>
      (true, { s with order := Keyed.erase seq s.order, positions := Keyed.erase id s.positions })
  | none => (false, s)

end Shelf

structure Memory where
  shelves : List (Address × Shelf)
  nextCreatedSeq : Nat

namespace Memory

def empty : Memory := ⟨[], 0⟩

def shelf (a : Address) (m : Memory) : Except Fault Shelf :=
  match Keyed.find? a m.shelves with
  | some s => .ok s
  | none => .error (.collectionMissing a.display)

/-- Puts a changed shelf back. -/
def reshelve (a : Address) (s : Shelf) (m : Memory) : Memory :=
  { m with shelves := Keyed.put a s m.shelves }

def create (a : Address) (c : Collection) (m : Memory) : Except Fault Memory :=
  if Keyed.contains a m.shelves then .error (.collectionPresent a.display)
  else .ok
    { shelves := Keyed.put a (Shelf.empty c m.nextCreatedSeq) m.shelves
      nextCreatedSeq := m.nextCreatedSeq + 1 }

def drop (a : Address) (m : Memory) : Bool × Memory :=
  (Keyed.contains a m.shelves, { m with shelves := Keyed.erase a m.shelves })

/-- The shelves of a partition, by creation. -/
def shelvesOf (partition : String) (m : Memory) : List Shelf :=
  ((m.shelves.filter fun kv => kv.1.partition = partition).map (·.2)).mergeSort
    fun s t => s.createdSeq ≤ t.createdSeq

instance : Backend Memory where
  kind := "memory"
  hasCollection a m := .ok (Keyed.contains a m.shelves)
  collection? a m := .ok ((Keyed.find? a m.shelves).map Shelf.snapshot)
  create := create
  redescribe a c m := (shelf a m).map fun s => m.reshelve a { s with descriptor := c }
  drop a m := .ok (drop a m)
  collections partition m := .ok ((m.shelvesOf partition).map Shelf.snapshot)
  hasDocument a id m := (shelf a m).map fun s => Keyed.contains id s.positions
  document? a id m := (shelf a m).map (Shelf.document? id)
  put a d m := (shelf a m).map fun s => m.reshelve a (s.put d)
  remove a id m := (shelf a m).map fun s => ((s.remove id).1, m.reshelve a (s.remove id).2)
  documents a m := (shelf a m).map Shelf.documents
  count a m := (shelf a m).map fun s => s.order.length

end Memory

end SemanticStore
