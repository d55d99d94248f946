/-!
# Keyed lists

Finite maps as lists of pairs with at most one pair per key. Writing to a key that is there keeps
its place.
-/

namespace SemanticStore.Keyed

variable {κ α : Type} [DecidableEq κ]

def find? (k : κ) : List (κ × α) → Option α
  | [] => none
  | (k', v) :: rest => if k' = k then some v else find? k rest

def contains (k : κ) (pairs : List (κ × α)) : Bool := (find? k pairs).isSome

/-- Gives a key this value: in its place if it is there, else at the end. -/
def put (k : κ) (v : α) : List (κ × α) → List (κ × α)
  | [] => [(k, v)]
  | (k', v') :: rest => if k' = k then (k, v) :: rest else (k', v') :: put k v rest

def erase (k : κ) (pairs : List (κ × α)) : List (κ × α) :=
  pairs.filter fun kv => kv.1 ≠ k

/-- Gives a number this value in a list whose keys ascend: in its place if it is there, else at its
place in the order. -/
def putAscending (k : Nat) (v : α) : List (Nat × α) → List (Nat × α)
  | [] => [(k, v)]
  | (k', v') :: rest =>
      if k < k' then (k, v) :: (k', v') :: rest
      else if k = k' then (k, v) :: rest
      else (k', v') :: putAscending k v rest

end SemanticStore.Keyed
