import SemanticStore.Decimal.Digits
import SemanticStore.Json.Value
import SemanticStore.Structured
import SemanticStore.Yaml.Document

/-!
# YAML values

What the nodes of a document stand for. A plain scalar is null, a boolean, a number or a string by
its text alone, a tag of the standard may ask for one of them, and a tag of the document's own stays
with its value. The keys of a mapping are values too, in the order of the text and each only once.
-/

namespace SemanticStore.Yaml

inductive Value where
  | null
  | bool (b : Bool)
  | number (n : JsonNumber)
  | string (s : String)
  | sequence (items : List Value)
  | mapping (entries : List (Value × Value))
  /-- a value with a tag of its own, whose exclamation mark is left out -/
  | tagged (tag : String) (v : Value)

/-! ### Plain scalars -/

namespace Core

def isNull (s : String) : Bool := s = "null" || s = "Null" || s = "NULL" || s = "~"

def bool? (s : String) : Option Bool :=
  if s = "true" || s = "True" || s = "TRUE" then some true
  else if s = "false" || s = "False" || s = "FALSE" then some false
  else none

/-- A text without a sign. -/
def isUnsigned : List Char → Bool
  | '+' :: _ => false
  | '-' :: _ => false
  | _ => true

/-- Digits with a leading zero, perhaps after a sign: these are a string, not a number. -/
def isPadded (s : List Char) : Bool :=
  let digits := if isUnsigned s then s else s.drop 1
  match digits with
  | '0' :: _ :: _ => digits.all Char.isDigit
  | _ => false

/-- The number that digits of a base up to sixteen write. -/
def digitsIn? (base : Nat) (digits : List Char) : Option Nat :=
  if digits.isEmpty then none
  else digits.foldlM (fun n c => do
    let d ← Json.Token.hexDigit? c
    if d < base then some (n * base + d) else none) 0

/-- The number that digits write, in a base that a mark may give. -/
def magnitude? : List Char → Option Nat
  | '0' :: 'x' :: rest => digitsIn? 16 rest
  | '0' :: 'o' :: rest => digitsIn? 8 rest
  | '0' :: 'b' :: rest => digitsIn? 2 rest
  | digits => digitsIn? 10 digits

def integer? (s : List Char) : Option Int :=
  if isPadded s then none
  else match s with
    | '+' :: rest => (magnitude? rest).map Int.ofNat
    | '-' :: rest => (magnitude? rest).map fun n => -(n : Int)
    | s => (magnitude? s).map Int.ofNat

/-- The double nearest to `significand * 10 ^ exponent`, where `length` is the number of digits of
the significand; none if it is too large. -/
def nearest? (significand length : Nat) (exponent : Int) : Option Float :=
  if significand = 0 || exponent + length < -400 then some 0.0
  else if 400 < exponent + length then none
  else
    let x := Float.ofScientific significand (exponent < 0) exponent.natAbs
    if x.isFinite then some x else none

/-- An exponent up to the end of the text, zero if there is none. -/
def exponent? : List Char → Option Int
  | [] => some 0
  | mark :: rest =>
      if mark = 'e' || mark = 'E' then
        let digits (rest : List Char) : Option Nat :=
          if rest.all Char.isDigit then digitsIn? 10 rest else none
        match rest with
        | '+' :: rest => (digits rest).map Int.ofNat
        | '-' :: rest => (digits rest).map fun n => -(n : Int)
        | rest => (digits rest).map Int.ofNat
      else none

/-- A decimal number without a sign: digits, perhaps a point among them, perhaps an exponent. -/
def decimal? (s : List Char) : Option Float := do
  let (whole, rest) := Decimal.spanDigits s
  let (fraction, rest) := match rest with
    | '.' :: rest => Decimal.spanDigits rest
    | rest => ([], rest)
  let digits := whole ++ fraction
  if digits.isEmpty then none
  else
    let e ← exponent? rest
    let significand := Decimal.ofDigits 0 digits
    nearest? significand (digits.dropWhile (· = 0)).length (e - fraction.length)

/-- Infinity and the number that is none, each in three spellings. -/
def special? (s : String) : Option Float :=
  if s = ".inf" || s = ".Inf" || s = ".INF" || s = "+.inf" || s = "+.Inf" || s = "+.INF" then
    some (1.0 / 0.0)
  else if s = "-.inf" || s = "-.Inf" || s = "-.INF" then some (-1.0 / 0.0)
  else if s = ".nan" || s = ".NaN" || s = ".NAN" then some (0.0 / 0.0)
  else none

def real? (s : String) : Option Float :=
  match special? s with
  | some x => some x
  | none =>
      match s.toList with
      | '+' :: rest => decimal? rest
      | '-' :: rest => (decimal? rest).map fun x => -x
      | s => decimal? s

/-- An integer as a value. Where it needs more than 64 bits it is refused, and where it needs more
than 128 it counts as no integer. -/
def integerValue? (s : String) : Option (Option Value) :=
  match integer? s.toList with
  | none => none
  | some n =>
      match WordInt.ofInt? n with
      | some w => some (some (.number (.integer w)))
      | none =>
          if -0x80000000000000000000000000000000 ≤ n ∧ n < 0x100000000000000000000000000000000 then
            some none
          else none

def resolve? (s : String) : Option Value :=
  if s.isEmpty || isNull s then some .null
  else match bool? s with
    | some b => some (.bool b)
    | none =>
        match integerValue? s with
        | some v => v
        | none =>
            if isPadded s.toList then some (.string s)
            else match real? s with
              | some x => some (.number (.real x))
              | none => some (.string s)

/-- A tag of the standard. -/
def standard (name : String) : String := "tag:yaml.org,2002:" ++ name

def tagged? (tag : String) (s : String) : Option Value :=
  if tag = standard "bool" then (bool? s).map .bool
  else if tag = standard "int" then (integerValue? s).join
  else if tag = standard "float" then (real? s).map fun x => .number (.real x)
  else if tag = standard "null" then if isNull s then some .null else none
  else some (.string s)

end Core

namespace Value

/-! ### Equality -/

def sameNumber : JsonNumber → JsonNumber → Bool
  | .integer n, .integer m => n.val = m.val
  | .real x, .real y => x == y || (x.isNaN && y.isNaN)
  | _, _ => false

mutual

/-- Two values are equal; the entries of a mapping may come in any order. -/
def same : Value → Value → Bool
  | null, null => true
  | bool a, bool b => a = b
  | number n, number m => sameNumber n m
  | string s, string t => s = t
  | sequence a, sequence b => sameItems a b
  | mapping a, mapping b => a.length = b.length && entriesIn a b
  | tagged t v, tagged u w => t = u && same v w
  | _, _ => false

def sameItems : List Value → List Value → Bool
  | [], [] => true
  | v :: a, w :: b => same v w && sameItems a b
  | _, _ => false

/-- Every entry of the first mapping is one of the second. -/
def entriesIn : List (Value × Value) → List (Value × Value) → Bool
  | [], _ => true
  | (k, v) :: rest, b => (b.any fun kv => same k kv.1 && same v kv.2) && entriesIn rest b

end

/-! ### Reading -/

/-- How deeply collections may nest. -/
def maxDepth : Nat := 128

/-- How often aliases may be followed, for each mark of the document. -/
def repetitions : Nat := 100

/-- A computation that counts how often an alias has been followed; it may fail. -/
abbrev Following := StateT Nat Option

def follow (d : Document) : Node → Following Node
  | .reference place => fun followed =>
      if d.size * repetitions ≤ followed then none
      else (d.target? place).map (·, followed + 1)
  | n => pure n

def ownTag? (tag : Option String) : Option String :=
  tag.bind fun t =>
    match t.toList with
    | '!' :: [] => some t
    | '!' :: rest => some (String.ofList rest)
    | _ => none

/-- Puts a tag of the document's own back to its value. -/
def withTag (tag : Option String) (v : Value) : Value :=
  match ownTag? tag with
  | some t => tagged t v
  | none => v

def ofScalar? (tag : Option String) (style : Style) (s : String) : Option Value :=
  let untagged := if style = .plain then Core.resolve? s else some (string s)
  match tag with
  | none => untagged
  | some t => if (ownTag? tag).isSome then untagged.map (withTag tag) else Core.tagged? t s

/-- Adds an entry with a key that is not there yet. -/
def withEntry (entries : List (Value × Value)) (k v : Value) : Option (List (Value × Value)) :=
  if entries.any fun kv => same kv.1 k then none else some (entries ++ [(k, v)])

/-- The value of a node in which collections nest to some depth at most. -/
def ofNode (d : Document) (depth : Nat) (n : Node) : Following Value := do
  match ← follow d n with
  | .scalar tag style s => fun followed => (ofScalar? tag style s).map (·, followed)
  | .sequence tag items =>
      match depth with
      | 0 => fun _ => none
      | depth + 1 =>
          let values ← items.mapM (ofNode d depth)
          return withTag tag (sequence values)
  | .mapping tag entries =>
      match depth with
      | 0 => fun _ => none
      | depth + 1 =>
          let values ← entries.foldlM (fun done kv => do
            let k ← ofNode d depth kv.1
            let v ← ofNode d depth kv.2
            fun followed => (withEntry done k v).map (·, followed)) []
          return withTag tag (mapping values)
  | .reference _ => fun _ => none
termination_by structural depth

/-- The value of a document; an empty one is null. -/
def ofDocument? (d : Document) : Option Value :=
  match d.root with
  | none => some null
  | some root => (((ofNode d maxDepth root).run 0).map (·.1))

def ofText? (text : String) : Option Value := do ofDocument? (← Document.ofText? text)

/-! ### Looking at values -/

/-- The value without the tags around it. -/
def untag : Value → Value
  | tagged _ v => untag v
  | v => v

def isNull : Value → Bool
  | null => true
  | _ => false

/-- The value of a key that is a string. -/
def get? (key : String) : Value → Option Value
  | mapping entries => (entries.find? fun kv => same kv.1 (string key)).map (·.2)
  | tagged _ v => get? key v
  | _ => none

def string? (v : Value) : Option String :=
  match v.untag with
  | string s => some s
  | _ => none

def bool? (v : Value) : Option Bool :=
  match v.untag with
  | bool b => some b
  | _ => none

def integer? (v : Value) : Option WordInt :=
  match v.untag with
  | number (.integer n) => some n
  | _ => none

/-- A name is a string, or a tag on a null. -/
def alternative? : Value → Option String
  | string s => some s
  | tagged t null => some t
  | _ => none

/-- The entries of a mapping with their keys as texts; null is the empty mapping. -/
def members? (v : Value) : Option (List (String × Value)) :=
  match v.untag with
  | mapping entries => entries.mapM fun kv => kv.1.string?.map (·, kv.2)
  | null => some []
  | _ => none

mutual

/-- The JSON value of a value without tags; a number that JSON does not have is null. -/
def json? : Value → Option Json
  | null => some .null
  | bool b => some (.bool b)
  | number (.integer n) => some (.number (.integer n))
  | number (.real x) => some (if x.isFinite then .number (.real x) else .null)
  | string s => some (.string s)
  | sequence items => (jsonItems? items).map .array
  | mapping entries => (jsonMembers? entries).map fun ms => .object (Members.ofList ms)
  | tagged _ _ => none

def jsonItems? : List Value → Option (List Json)
  | [] => some []
  | v :: rest => do
      let x ← json? v
      let xs ← jsonItems? rest
      some (x :: xs)

def jsonMembers? : List (Value × Value) → Option (List (String × Json))
  | [] => some []
  | (k, v) :: rest => do
      let key ← k.string?
      let x ← json? v
      let xs ← jsonMembers? rest
      some ((key, x) :: xs)

end

def isTagged : Value → Bool
  | tagged _ _ => true
  | _ => false

instance : Structured Value where
  isNull := isNull
  isTagged := isTagged
  bool? := bool?
  integer? := integer?
  text? := string?
  alternative? := alternative?
  json? := fun _ => json?
  fields? := fun names v => v.members?.bind (Structured.known? names)

mutual

def ofJson : Json → Value
  | .null => null
  | .bool b => bool b
  | .number n => number n
  | .string s => string s
  | .array items => sequence (ofJsonItems items)
  | .object members => mapping (ofJsonMembers members)

def ofJsonItems : List Json → List Value
  | [] => []
  | v :: rest => ofJson v :: ofJsonItems rest

def ofJsonMembers : List (String × Json) → List (Value × Value)
  | [] => []
  | (k, v) :: rest => (string k, ofJson v) :: ofJsonMembers rest

end

end Value

end SemanticStore.Yaml
