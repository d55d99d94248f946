import SemanticStore.Decimal.Double
import SemanticStore.Yaml.Value

/-!
# Writing YAML

The text of a value in block style, two blanks for each level, a sequence not indented below its
key. A string is plain where it reads back as the same string, in single quotes where it would read
as something else, in double quotes where it holds characters that cannot be seen, and a block where
it has line breaks. Lines are never folded.
-/

namespace SemanticStore.Yaml

/-! ### Strings -/

namespace Writer

/-- A character that is written as it is. -/
def isPrintable (c : Char) : Bool :=
  let n := c.toNat
  n = 0x0A || (0x20 ≤ n && n ≤ 0x7E) || (0xA0 ≤ n && n ≤ 0xD7FF) ||
    (0xE000 ≤ n && n ≤ 0xFFFD && n ≠ 0xFEFF) || 0x10000 ≤ n

/-- A line break in any notation. -/
def breaksLine (c : Char) : Bool := isBreak c || c = '\r' || c = '\u0085'

/-- A blank, a line break or the end of the text. -/
def endsWord : Option Char → Bool
  | none => true
  | some c => isBlank c || breaksLine c

/-- A character that means something else at the start of a plain scalar. -/
def isOpening (c : Char) (next : Option Char) : Bool :=
  isReserved c || ((c = '?' || c = ':' || c = '-') && endsWord next)

/-- A character that ends a plain scalar, or starts a comment, behind another one. -/
def isInterruption (before c : Char) (next : Option Char) : Bool :=
  (c = ':' && endsWord next) || (c = '#' && endsWord (some before))

/-- Some character of a text behind the first ends a plain scalar. -/
def isInterrupted : List Char → Bool
  | a :: c :: rest => isInterruption a c rest.head? || isInterrupted (c :: rest)
  | _ => false

/-- Two neighbours of a text satisfy two tests. -/
def hasPair (p q : Char → Bool) : List Char → Bool
  | a :: c :: rest => (p a && q c) || hasPair p q (c :: rest)
  | _ => false

/-- How a text could be written. -/
structure Shape where
  hasBreaks : Bool
  plain : Bool
  single : Bool
  block : Bool

def shape (s : List Char) : Shape :=
  let atEnds (p : Char → Bool) : Bool := (s.head?.any p) || (s.getLast?.any p)
  let hidden := s.any fun c => !isPrintable c
  let blankBeforeBreak := hasPair (· = ' ') breaksLine s
  let blankAfterBreak := hasPair breaksLine (· = ' ') s
  let marked := s.take 3 = ['-', '-', '-'] || s.take 3 = ['.', '.', '.'] ||
    (match s with
      | c :: rest => isOpening c rest.head?
      | [] => false) || isInterrupted s
  let hasBreaks := s.any breaksLine
  { hasBreaks := hasBreaks
    plain := !(atEnds (· = ' ') || atEnds breaksLine || hidden || hasBreaks || marked)
    single := !(hidden || blankBeforeBreak || blankAfterBreak)
    block := !(hidden || blankBeforeBreak || s.getLast? = some ' ' || s.isEmpty) }

inductive Form where
  | plain
  | single
  | double
  | literal
deriving DecidableEq

/-- The text of a string would be read as something else. -/
def isAmbiguous (s : String) : Bool :=
  Core.isPadded s.toList || match Core.resolve? s with
    | some (.string _) => false
    | _ => true

/-- How a string is written; as a key on the line of its value it cannot be a block. -/
def form (key : Bool) (s : String) : Form :=
  let cs := s.toList
  let f := shape cs
  if cs.contains '\n' then
    if f.block && !key then .literal else .double
  else if f.plain && !isAmbiguous s then .plain
  else if f.single && !(key && f.hasBreaks) then .single
  else .double

/-- The upper-case hexadecimal digits of a number, `n` of them. -/
def hexDigits : Nat → Nat → List Char
  | 0, _ => []
  | n + 1, x => hexDigits n (x / 16) ++ [(Nat.digitChar (x % 16)).toUpper]

def doubleChar (c : Char) : List Char :=
  if isPrintable c && !breaksLine c && c ≠ '"' && c ≠ '\\' then [c]
  else '\\' :: match c with
    | '\x00' => ['0']
    | '\x07' => ['a']
    | '\x08' => ['b']
    | '\t' => ['t']
    | '\n' => ['n']
    | '\x0b' => ['v']
    | '\x0c' => ['f']
    | '\r' => ['r']
    | '\x1b' => ['e']
    | '"' => ['"']
    | '\\' => ['\\']
    | '\u0085' => ['N']
    | '\u2028' => ['L']
    | '\u2029' => ['P']
    | c =>
        if c.toNat ≤ 0xFF then 'x' :: hexDigits 2 c.toNat
        else if c.toNat ≤ 0xFFFF then 'u' :: hexDigits 4 c.toNat
        else 'U' :: hexDigits 8 c.toNat

/-- A character of a tag; those that are no letters, digits or marks are written by their bytes. -/
def tagChar (c : Char) : List Char :=
  if Token.isTagChar true c && c ≠ '%' then [c]
  else (String.ofList [c]).toUTF8.toList.flatMap fun b => '%' :: hexDigits 2 b.toNat

def tagChars (tag : String) : List Char :=
  if tag = "!" then "!<!>".toList else '!' :: tag.toList.flatMap tagChar

end Writer

/-! ### The page -/

/-- A text that is being written. -/
structure Page where
  /-- newest first -/
  written : List Char
  column : Nat
  /-- the text ends with white space or an opening mark -/
  spaced : Bool
  /-- nothing but marks of structure stands on the line -/
  fresh : Bool

namespace Page

def empty : Page := ⟨[], 0, true, true⟩

/-- Adds characters that stay on the line. -/
def put (cs : List Char) (p : Page) : Page :=
  { p with written := cs.reverse ++ p.written, column := p.column + cs.length }

def endLine (p : Page) : Page := { p with written := '\n' :: p.written, column := 0 }

/-- Goes to a column, on the present line if nothing stands in the way. -/
def goTo (column : Nat) (p : Page) : Page :=
  let blocked := !p.fresh || column < p.column || (p.column = column && !p.spaced)
  let p := if blocked then p.endLine else p
  { p.put (List.replicate (column - p.column) ' ') with spaced := true, fresh := true }

/-- Adds a mark behind a blank. -/
def mark (cs : List Char) (p : Page) : Page :=
  let p := if p.spaced then p else p.put [' ']
  { p.put cs with spaced := false, fresh := false }

/-- Adds the mark of an entry, which leaves the line open for a collection. -/
def entryMark (c : Char) (p : Page) : Page := { p.mark [c] with fresh := p.fresh }

/-- Adds the colon behind a key. -/
def colon (p : Page) : Page := { p.put [':'] with spaced := false, fresh := false }

/-- Adds the lines of a text, each but an empty one from a column on. `atStart` tells that a line
starts here. -/
def lines (column : Nat) (charOf : Char → List Char) : Bool → List Char → Page → Page
  | _, [], p => p
  | atStart, c :: rest, p =>
      if isBreak c then
        lines column charOf true rest
          { p with written := c :: p.written, column := 0, fresh := true }
      else
        let p := if atStart then p.goTo column else p
        lines column charOf false rest { p.put (charOf c) with fresh := false }

def single (column : Nat) (cs : List Char) (p : Page) : Page :=
  let p := lines column (fun c => if c = '\'' then ['\'', '\''] else [c]) false cs (p.mark ['\''])
  let p := if cs.getLast?.any isBreak then p.goTo column else p
  { p.put ['\''] with spaced := false, fresh := false }

/-- The marks of a block: its indentation if the text starts with white space, and what becomes of
the line breaks at its end. -/
def blockMarks (cs : List Char) : List Char :=
  let starts := match cs with
    | c :: _ => c = ' ' || isBreak c
    | [] => false
  let chomping := match cs.reverse with
    | [] => ['-']
    | c :: rest =>
        if !isBreak c then ['-']
        else match rest with
          | [] => ['+']
          | d :: _ => if isBreak d then ['+'] else []
  '|' :: (if starts then ['2'] else []) ++ chomping

/-- Adds a string as a block that keeps its lines. -/
def literal (column : Nat) (cs : List Char) (p : Page) : Page :=
  let p := (p.mark (blockMarks cs)).endLine
  lines column (fun c => [c]) true cs { p with spaced := true, fresh := true }

def string (column : Nat) (key : Bool) (s : String) (p : Page) : Page :=
  let cs := s.toList
  match Writer.form key s with
  | .plain => p.mark cs
  | .single => p.single column cs
  | .double => p.mark ('"' :: cs.flatMap Writer.doubleChar ++ ['"'])
  | .literal => p.literal column cs

end Page

/-! ### Values -/

namespace Writer

def realChars (x : Float) : List Char :=
  if x.isNaN then ".nan".toList
  else if x.isInf then (if x < 0.0 then "-.inf" else ".inf").toList
  else Decimal.doubleChars x

def numberChars : JsonNumber → List Char
  | .integer n => Decimal.intChars n.val
  | .real x => realChars x

/-- The longest key that is written on the line of its value, in bytes. -/
def keyLength : Nat := 128

/-- How many bytes a value takes up if it can be a key on the line of its value. -/
def keySize? : Value → Option Nat
  | .null => some 4
  | .bool b => some (if b then 4 else 5)
  | .number n => some (numberChars n).length
  | .string s => if s.toList.any breaksLine then none else some s.utf8ByteSize
  | .sequence [] => some 0
  | .mapping [] => some 0
  | .tagged tag v => (keySize? v).map fun n => tag.utf8ByteSize + 1 + n
  | _ => none

def isShortKey (v : Value) : Bool :=
  match keySize? v with
  | some n => n ≤ keyLength
  | none => false

/-- What a value is part of. -/
inductive Role where
  | root
  | item
  /-- a key on the line of its value -/
  | shortKey
  /-- a key on lines of its own, or the value of a key -/
  | side
deriving DecidableEq

/-- The column of the entries of a collection in one whose entries stand at `column`. -/
def below : Option Nat → Nat
  | none => 0
  | some n => n + 2

mutual

def value (column : Option Nat) (role : Role) : Value → Page → Page
  | .null, p => p.mark "null".toList
  | .bool b, p => p.mark (if b then "true" else "false").toList
  | .number n, p => p.mark (numberChars n)
  | .string s, p => p.string (below column) (role = .shortKey) s
  | .sequence vs, p =>
      if vs.isEmpty then p.mark ['[', ']']
      else items (if role = .side && !p.fresh then column.getD 0 else below column) vs p
  | .mapping kvs, p => if kvs.isEmpty then p.mark ['{', '\x7d'] else entries (below column) kvs p
  | .tagged tag v, p => value column role v (p.mark (tagChars tag))

def items (column : Nat) : List Value → Page → Page
  | [], p => p
  | v :: rest, p => items column rest (value (some column) .item v ((p.goTo column).entryMark '-'))

def entries (column : Nat) : List (Value × Value) → Page → Page
  | [], p => p
  | (k, v) :: rest, p =>
      let p := p.goTo column
      let p :=
        if isShortKey k then (value (some column) .shortKey k p).colon
        else ((value (some column) .side k (p.entryMark '?')).goTo column).entryMark ':'
      entries column rest (value (some column) .side v p)

end

end Writer

/-- The text of a value, which ends with a line break. -/
def Value.write (v : Value) : String :=
  String.ofList ((Writer.value none .root v .empty).goTo 0).written.reverse

end SemanticStore.Yaml
