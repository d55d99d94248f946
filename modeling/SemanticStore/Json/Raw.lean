import SemanticStore.Json.Token

/-!
# JSON texts by structure

`Raw` is a JSON text with its structure recognised and its numbers and strings still as written,
each object with all its members in order. `Raw.ofText?` is the reader. Whether a number is in
range, whether a string has lone surrogates and how deeply containers nest is asked only where a
value is made of the text (`Raw.value?`), so a part that is passed over may hold any of these.
-/

namespace SemanticStore.Json

/-- A JSON text by its structure. -/
inductive Raw where
  | null
  | bool (b : Bool)
  | number (n : Numeral)
  | string (q : Quoted)
  | array (items : List Raw)
  | object (members : List (Quoted × Raw))

namespace Raw

/-- A container that is being read, with what it holds so far, newest first. -/
inductive Frame where
  | array (items : List Raw)
  | object (members : List (Quoted × Raw)) (key : Quoted)

/-- What may come next. -/
inductive Expect where
  /-- a value -/
  | value
  /-- the first item of an array, or its end -/
  | item
  /-- the first key of an object, or its end -/
  | firstKey
  /-- a further key of an object that holds these members, newest first -/
  | key (members : List (Quoted × Raw))
  /-- the colon after a key -/
  | colon (members : List (Quoted × Raw)) (key : Quoted)
  /-- after a complete value: a comma or the end of its container, or the end of the text -/
  | after (value : Raw)

/-- The value a single token is. -/
def ofToken? : Token → Option Raw
  | .null => some null
  | .bool b => some (bool b)
  | .number n => some (number n)
  | .string q => some (string q)
  | _ => none

/-- The start of a value: a container is put on the stack, anything else is complete. -/
def begin? (stack : List Frame) : Token → Option (Expect × List Frame)
  | .arrayOpen => some (.item, .array [] :: stack)
  | .objectOpen => some (.firstKey, stack)
  | t => (ofToken? t).map fun v => (.after v, stack)

/-- One token further. -/
def step? : Expect → List Frame → Token → Option (Expect × List Frame)
  | .value, stack, t => begin? stack t
  | .item, .array [] :: stack, .arrayClose => some (.after (array []), stack)
  | .item, stack, t => begin? stack t
  | .firstKey, stack, .objectClose => some (.after (object []), stack)
  | .firstKey, stack, .string k => some (.colon [] k, stack)
  | .key members, stack, .string k => some (.colon members k, stack)
  | .colon members k, stack, .colon => some (.value, .object members k :: stack)
  | .after v, .array items :: stack, .comma => some (.value, .array (v :: items) :: stack)
  | .after v, .array items :: stack, .arrayClose =>
      some (.after (array (v :: items).reverse), stack)
  | .after v, .object members k :: stack, .comma => some (.key ((k, v) :: members), stack)
  | .after v, .object members k :: stack, .objectClose =>
      some (.after (object ((k, v) :: members).reverse), stack)
  | _, _, _ => none

/-- Reads tokens to their end, which has to complete one value. -/
def run? : Expect → List Frame → List Token → Option Raw
  | .after v, [], [] => some v
  | _, _, [] => none
  | expect, stack, t :: rest =>
      match step? expect stack t with
      | none => none
      | some (expect, stack) => run? expect stack rest

/-- The structure of a text that is one JSON value with nothing but white space around it. -/
def ofChars? (text : List Char) : Option Raw := do
  run? .value [] (← Token.ofChars? text)

def ofText? (text : String) : Option Raw := ofChars? text.toList

/-! ### Values -/

/-- How many containers may enclose one another where a value is made of a text. -/
def maxDepth : Nat := 127

mutual

/-- The value of a text in which at most `depth` containers enclose one another. -/
def value? (depth : Nat) : Raw → Option Json
  | null => some .null
  | bool b => some (.bool b)
  | number n => n.value?.map .number
  | string q => q.text?.map .string
  | array items =>
      match depth with
      | 0 => none
      | depth + 1 => (values? depth items).map .array
  | object members =>
      match depth with
      | 0 => none
      | depth + 1 => (memberValues? depth members).map fun ms => .object (Members.ofList ms)

def values? (depth : Nat) : List Raw → Option (List Json)
  | [] => some []
  | v :: rest => do
      let x ← value? depth v
      let xs ← values? depth rest
      some (x :: xs)

/-- The members of an object in the order of the text. -/
def memberValues? (depth : Nat) : List (Quoted × Raw) → Option (List (String × Json))
  | [] => some []
  | (k, v) :: rest => do
      let key ← k.text?
      let x ← value? depth v
      let xs ← memberValues? depth rest
      some ((key, x) :: xs)

end

end Raw

/-- The value a text writes; of a repeated key the last value counts. -/
def read? (text : String) : Option Json := do
  (← Raw.ofText? text).value? Raw.maxDepth

end SemanticStore.Json
