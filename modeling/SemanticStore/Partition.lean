import SemanticStore.Decimal.Digits
import SemanticStore.Json.Writer
import SemanticStore.Structured

/-!
# Partitions and addresses

A partition keeps the collections of one tenant apart from all others. It is named by an integer or
by a text; a backend only sees the text of the name, so an integer and its decimal text name the
same partition there, while their JSON forms differ.
-/

namespace SemanticStore

/-- A signed integer of 64 bits. -/
structure SignedInt where
  val : Int
  lower : -0x8000000000000000 ≤ val
  upper : val < 0x8000000000000000

namespace SignedInt

instance : DecidableEq SignedInt := fun m n =>
  if h : m.val = n.val then isTrue (by cases m; cases n; simp_all)
  else isFalse fun heq => h (congrArg val heq)

/-- The integer, if it fits. -/
def ofInt? (n : Int) : Option SignedInt :=
  if h : -0x8000000000000000 ≤ n ∧ n < 0x8000000000000000 then some ⟨n, h.1, h.2⟩ else none

/-- Every signed integer of 64 bits is a JSON integer. -/
def toWordInt (n : SignedInt) : WordInt :=
  ⟨n.val, n.lower, Int.lt_trans n.upper (by decide)⟩

end SignedInt

/-- The name of a partition. -/
inductive Partition where
  | int (n : SignedInt)
  | text (s : String)
deriving DecidableEq

namespace Partition

/-- The partition of a store that names none. -/
def default : Partition := text "default"

instance : Inhabited Partition := ⟨default⟩

/-- The text by which backends know the partition. -/
def label : Partition → String
  | int n => String.ofList (Decimal.intChars n.val)
  | text s => s

def toJson : Partition → Json
  | int n => .number (.integer n.toWordInt)
  | text s => .string s

/-- A partition is given as a signed integer or a string, without a tag. -/
def decode? {ν : Type} [Structured ν] (v : ν) : Option Partition :=
  if Structured.isTagged v then none
  else match Structured.integer? v with
    | some n => (SignedInt.ofInt? n.val).map int
    | none => (Structured.text? v).map text

end Partition

/-- Where a backend keeps a collection: the label of its partition and its name. -/
structure Address where
  partition : String
  name : String
deriving DecidableEq

namespace Address

def of (partition : Partition) (name : String) : Address := ⟨partition.label, name⟩

/-- The address as a text. Different addresses may have the same text. -/
def display (a : Address) : String := a.partition ++ "/" ++ a.name

end Address

end SemanticStore
