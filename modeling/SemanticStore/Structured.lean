import SemanticStore.Json.Raw

/-!
# Structured texts

What a decoder may ask of a text whose structure has been recognised, whatever its notation. The
settings of a store are decoded through these questions alone, so one decoder serves JSON and YAML.
-/

namespace SemanticStore

/-- A notation for structured values. -/
class Structured (ν : Type) where
  /-- a missing value -/
  isNull : ν → Bool
  /-- a value with a tag, which most decoders look behind -/
  isTagged : ν → Bool
  bool? : ν → Option Bool
  /-- an integer of at most 64 bits -/
  integer? : ν → Option WordInt
  text? : ν → Option String
  /-- the name of an alternative that carries nothing -/
  alternative? : ν → Option String
  /-- any value, found below `enclosing` containers -/
  json? (enclosing : Nat) : ν → Option Json
  /-- the fields of a record with these field names, each at most once -/
  fields? (names : List String) : ν → Option (List (String × ν))

namespace Structured

variable {ν : Type}

/-- The known fields among the members of a record; none if one of them is repeated. -/
def known? (names : List String) : List (String × ν) → Option (List (String × ν))
  | [] => some []
  | (k, v) :: rest => do
      let more ← known? names rest
      if k ∈ names then
        if (more.lookup k).isSome then none else some ((k, v) :: more)
      else some more

/-- A field of a record that has to be there. -/
def required {α : Type} (fields : List (String × ν)) (name : String) (decode : ν → Option α) :
    Option α :=
  (fields.lookup name).bind decode

/-- A field of a record with a value to use in its absence. -/
def optional {α : Type} (fields : List (String × ν)) (name : String) (decode : ν → Option α)
    (default : α) : Option α :=
  match fields.lookup name with
  | none => some default
  | some v => decode v

variable [Structured ν]

/-- A natural number of at most 64 bits. -/
def natural? (v : ν) : Option Nat :=
  (integer? v).bind WordInt.toNat?

/-- A value that may be missing. -/
def nullable {α : Type} (decode : ν → Option α) (v : ν) : Option (Option α) :=
  if isNull v then some none else (decode v).map some

end Structured

namespace Json

namespace Raw

def isNull : Raw → Bool
  | null => true
  | _ => false

def bool? : Raw → Option Bool
  | bool b => some b
  | _ => none

/-- A number without fraction and exponent that fits a word. -/
def integer? : Raw → Option WordInt
  | number n => match n.value? with
    | some (.integer i) => some i
    | _ => none
  | _ => none

def text? : Raw → Option String
  | string q => q.text?
  | _ => none

/-- A name, or an object whose one key is the name and whose value is null. -/
def alternative? : Raw → Option String
  | string q => q.text?
  | object [(k, null)] => k.text?
  | _ => none

/-- The members of an object with their keys as texts. -/
def members? : List (Quoted × Raw) → Option (List (String × Raw))
  | [] => some []
  | (k, v) :: rest => do
      let key ← k.text?
      let more ← members? rest
      some ((key, v) :: more)

/-- A record is an object, or an array of the fields in their order, of which the last may be
missing. -/
def fields? (names : List String) : Raw → Option (List (String × Raw))
  | object members => (members? members).bind (Structured.known? names)
  | array items => if items.length ≤ names.length then some (names.zip items) else none
  | _ => none

def items? : Raw → Option (List Raw)
  | array items => some items
  | _ => none

end Raw

instance : Structured Raw where
  isNull := Raw.isNull
  isTagged := fun _ => false
  bool? := Raw.bool?
  integer? := Raw.integer?
  text? := Raw.text?
  alternative? := Raw.alternative?
  json? := fun enclosing => Raw.value? (Raw.maxDepth - enclosing)
  fields? := Raw.fields?

end Json

end SemanticStore
