import SemanticStore.Json.Numeral

/-!
# JSON tokens

`Token.ofChars?` cuts a text into tokens in one pass. A string is kept as it is written, apart from
its simple escapes: `\u` escapes remain 16-bit units, and `Quoted.text?` joins them into characters
where every surrogate has its partner.
-/

namespace SemanticStore.Json

/-- A piece of a quoted string: a character, or the 16-bit unit of a `\u` escape. -/
inductive Piece where
  | char (c : Char)
  | unit (u : Nat)
deriving DecidableEq

abbrev Quoted := List Piece

/-- The characters of a string; none if a surrogate stands alone. -/
def Quoted.chars? : Quoted → Option (List Char)
  | [] => some []
  | .char c :: rest => (Quoted.chars? rest).map (c :: ·)
  | .unit u :: .unit v :: rest =>
      if u < 0xD800 || 0xDFFF < u then (Quoted.chars? (.unit v :: rest)).map (Char.ofNat u :: ·)
      else if u < 0xDC00 && 0xDC00 ≤ v && v ≤ 0xDFFF then
        (Quoted.chars? rest).map (Char.ofNat (0x10000 + (u - 0xD800) * 0x400 + (v - 0xDC00)) :: ·)
      else none
  | .unit u :: rest =>
      if u < 0xD800 || 0xDFFF < u then (Quoted.chars? rest).map (Char.ofNat u :: ·) else none

/-- The text of a string; none if a surrogate stands alone. -/
def Quoted.text? (q : Quoted) : Option String :=
  (Quoted.chars? q).map String.ofList

inductive Token where
  | objectOpen
  | objectClose
  | arrayOpen
  | arrayClose
  | comma
  | colon
  | null
  | bool (b : Bool)
  | number (n : Numeral)
  | string (q : Quoted)
deriving DecidableEq

namespace Token

/-- Where a scan stands: between tokens, in a run of letters, digits and signs, or in a quoted
string (plain, after a backslash, or within a `\u` escape of which `left` digits are missing). What
has been read of the token is kept newest first. -/
inductive Scan where
  | between
  | word (read : List Char)
  | quoted (read : Quoted)
  | escape (read : Quoted)
  | unit (read : Quoted) (u : Nat) (left : Nat)

def isSpace (c : Char) : Bool := c = ' ' || c = '\n' || c = '\t' || c = '\r'

/-- A character that can stand in a number or in `null`, `true` or `false`. -/
def isWordChar (c : Char) : Bool :=
  c.isAlphanum || c = '-' || c = '+' || c = '.'

/-- The token that a single character is. -/
def mark? : Char → Option Token
  | '{' => some objectOpen
  | '}' => some objectClose
  | '[' => some arrayOpen
  | ']' => some arrayClose
  | ',' => some comma
  | ':' => some colon
  | _ => none

/-- The token that a run of letters, digits and signs is. -/
def ofWord? (word : List Char) : Option Token :=
  if word = ['n', 'u', 'l', 'l'] then some null
  else if word = ['t', 'r', 'u', 'e'] then some (bool true)
  else if word = ['f', 'a', 'l', 's', 'e'] then some (bool false)
  else (Numeral.ofChars? word).map number

/-- The character a simple escape stands for. -/
def escaped? : Char → Option Char
  | '"' => some '"'
  | '\\' => some '\\'
  | '/' => some '/'
  | 'b' => some '\x08'
  | 'f' => some '\x0c'
  | 'n' => some '\n'
  | 'r' => some '\r'
  | 't' => some '\t'
  | _ => none

def hexDigit? (c : Char) : Option Nat :=
  if '0' ≤ c && c ≤ '9' then some (c.toNat - '0'.toNat)
  else if 'a' ≤ c && c ≤ 'f' then some (c.toNat - 'a'.toNat + 10)
  else if 'A' ≤ c && c ≤ 'F' then some (c.toNat - 'A'.toNat + 10)
  else none

/-- A character outside of a token: the tokens read so far, newest first, and where the scan
stands. -/
def start? (done : List Token) (c : Char) : Option (List Token × Scan) :=
  if isSpace c then some (done, .between)
  else if c = '"' then some (done, .quoted [])
  else if isWordChar c then some (done, .word [c])
  else (mark? c).map fun t => (t :: done, .between)

/-- One character further: the tokens read so far, newest first, and where the scan stands. -/
def step? (done : List Token) : Scan → Char → Option (List Token × Scan)
  | .between, c => start? done c
  | .word read, c =>
      if isWordChar c then some (done, .word (c :: read))
      else (ofWord? read.reverse).bind fun t => start? (t :: done) c
  | .quoted read, c =>
      if c = '"' then some (string read.reverse :: done, .between)
      else if c = '\\' then some (done, .escape read)
      else if c.toNat < 0x20 then none
      else some (done, .quoted (.char c :: read))
  | .escape read, c =>
      if c = 'u' then some (done, .unit read 0 3)
      else (escaped? c).map fun e => (done, .quoted (.char e :: read))
  | .unit read u left, c =>
      (hexDigit? c).map fun d =>
        match left with
        | 0 => (done, .quoted (.unit (u * 16 + d) :: read))
        | left + 1 => (done, .unit read (u * 16 + d) left)

/-- The end of the text: it must not cut a string. -/
def finish? (done : List Token) : Scan → Option (List Token)
  | .between => some done.reverse
  | .word read => (ofWord? read.reverse).map fun t => (t :: done).reverse
  | _ => none

/-- Scans a text on, with the tokens read so far, newest first. -/
def scan? (done : List Token) (state : Scan) : List Char → Option (List Token)
  | [] => finish? done state
  | c :: rest =>
      match step? done state c with
      | none => none
      | some (done, state) => scan? done state rest

def ofChars? (text : List Char) : Option (List Token) := scan? [] .between text

end Token

end SemanticStore.Json
