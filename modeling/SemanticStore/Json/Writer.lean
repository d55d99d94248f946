import SemanticStore.Decimal.Double
import SemanticStore.Json.Value

/-!
# Writing JSON

The compact text of a value: no white space, members in their order, and in strings an escape for
the quote, the backslash and the control characters below U+0020 only.
-/

namespace SemanticStore.Json

/-- The lower-case hexadecimal digit of a value below sixteen. -/
def hexChar (d : Nat) : Char :=
  if d < 10 then Char.ofNat ('0'.toNat + d) else Char.ofNat ('a'.toNat + (d - 10))

/-- A character within a quoted string. -/
def escapeChar (c : Char) : List Char :=
  if c = '"' then ['\\', '"']
  else if c = '\\' then ['\\', '\\']
  else if c = '\x08' then ['\\', 'b']
  else if c = '\x0c' then ['\\', 'f']
  else if c = '\n' then ['\\', 'n']
  else if c = '\r' then ['\\', 'r']
  else if c = '\t' then ['\\', 't']
  else if c.toNat < 0x20 then
    ['\\', 'u', '0', '0', hexChar (c.toNat / 16), hexChar (c.toNat % 16)]
  else [c]

/-- A text as a quoted string. -/
def quote (s : String) : List Char :=
  '"' :: (s.toList.flatMap escapeChar ++ ['"'])

def numberChars : JsonNumber → List Char
  | .integer n => Decimal.intChars n.val
  | .real x => Decimal.doubleChars x

mutual

def chars : Json → List Char
  | null => ['n', 'u', 'l', 'l']
  | bool true => ['t', 'r', 'u', 'e']
  | bool false => ['f', 'a', 'l', 's', 'e']
  | number n => numberChars n
  | string s => quote s
  | array items => '[' :: itemChars items
  | object members => '{' :: memberChars members

/-- The items of an array, with its closing bracket. -/
def itemChars : List Json → List Char
  | [] => [']']
  | [v] => chars v ++ [']']
  | v :: w :: rest => chars v ++ ',' :: itemChars (w :: rest)

/-- The members of an object, with its closing brace. -/
def memberChars : List (String × Json) → List Char
  | [] => ['\x7d']
  | [(k, v)] => quote k ++ ':' :: (chars v ++ ['\x7d'])
  | (k, v) :: kv :: rest => quote k ++ ':' :: (chars v ++ ',' :: memberChars (kv :: rest))

end

/-- The compact text of a value. -/
def write (v : Json) : String := String.ofList v.chars

end SemanticStore.Json
