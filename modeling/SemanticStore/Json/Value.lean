/-!
# JSON values

Numbers are either integers of at most 64 bits or doubles. The members of an object are kept as a
list; `Members.insert` keeps it sorted by key, so an object read from a text has each key once and
in order.
-/

namespace SemanticStore

/-- An integer that fits a signed or an unsigned word of 64 bits. -/
structure WordInt where
  val : Int
  lower : -0x8000000000000000 ≤ val
  upper : val < 0x10000000000000000
deriving DecidableEq

inductive JsonNumber where
  | integer (n : WordInt)
  | real (x : Float)
deriving DecidableEq

inductive Json where
  | null
  | bool (b : Bool)
  | number (n : JsonNumber)
  | string (s : String)
  | array (items : List Json)
  | object (members : List (String × Json))

/-- The members of an object, sorted by key in the order of code points. -/
abbrev Members := List (String × Json)

namespace Members

/-- Gives the key this value, in place if the key is there and else at its place in the order. -/
def insert (key : String) (value : Json) : Members → Members
  | [] => [(key, value)]
  | (k, v) :: rest =>
      if key < k then (key, value) :: (k, v) :: rest
      else if key = k then (key, value) :: rest
      else (k, v) :: insert key value rest

/-- The object of these members; of a repeated key the last value counts. -/
def ofList (members : List (String × Json)) : Members :=
  members.foldl (fun m kv => insert kv.1 kv.2 m) []

def get? (members : Members) (key : String) : Option Json :=
  members.lookup key

end Members

namespace WordInt

/-- The integer, if it fits. -/
def ofInt? (n : Int) : Option WordInt :=
  if h : -0x8000000000000000 ≤ n ∧ n < 0x10000000000000000 then some ⟨n, h.1, h.2⟩ else none

/-- As an unsigned word of 64 bits. -/
def toNat? (n : WordInt) : Option Nat :=
  if 0 ≤ n.val then some n.val.toNat else none

end WordInt

namespace Json

/-- A JSON integer. -/
def ofInt? (n : Int) : Option Json :=
  (WordInt.ofInt? n).map fun n => .number (.integer n)

def string? : Json → Option String
  | string s => some s
  | _ => none

def member? (key : String) : Json → Option Json
  | object members => Members.get? members key
  | _ => none

end Json

end SemanticStore
