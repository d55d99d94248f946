/-!
# Reading positions

A YAML text as it is scanned: the characters that are left, with the line and the column of the next
one. Line breaks are made uniform before, so that `\n` stands for all of them but the line and the
paragraph separator, which are breaks that keep their own character.
-/

namespace SemanticStore.Yaml

/-! ### Characters -/

/-- A character that may stand in a YAML text. -/
def isAllowed (c : Char) : Bool :=
  let n := c.toNat
  n = 0x09 || n = 0x0A || n = 0x0D || (0x20 ≤ n && n ≤ 0x7E) || n = 0x85 ||
    (0xA0 ≤ n && n ≤ 0xD7FF) || (0xE000 ≤ n && n ≤ 0xFFFD) || 0x10000 ≤ n

def isBreak (c : Char) : Bool := c = '\n' || c = '\u2028' || c = '\u2029'

def isBlank (c : Char) : Bool := c = ' ' || c = '\t'

/-- A character of an anchor, a tag handle or the name of a directive. -/
def isWordChar (c : Char) : Bool := c.isAlphanum || c = '_' || c = '-'

/-- A character that can never start a plain scalar. -/
def isReserved (c : Char) : Bool :=
  "#,[]\x7b\x7d&*!|>\x27\x22%@\x60".toList.contains c

/-- Writes every line break but the separators as `\n`; a carriage return and a line feed are one
break. -/
def uniformBreaks : List Char → List Char
  | [] => []
  | '\r' :: '\n' :: rest => '\n' :: uniformBreaks rest
  | c :: rest => (if c = '\r' || c = '\u0085' then '\n' else c) :: uniformBreaks rest

/-! ### Positions -/

/-- A position in a text. -/
structure Cursor where
  /-- the text from here on -/
  rest : List Char
  line : Nat
  column : Nat

namespace Cursor

def start (text : List Char) : Cursor := ⟨text, 0, 0⟩

/-- The character some places further on; none behind the end. -/
def peek? (k : Cursor) (n : Nat) : Option Char := k.rest[n]?

def sees (k : Cursor) (n : Nat) (c : Char) : Bool := k.peek? n = some c

/-- The character some places further on is a blank or a break, or the text has ended there. -/
def endsAt (k : Cursor) (n : Nat) : Bool :=
  match k.peek? n with
  | none => true
  | some c => isBlank c || isBreak c

def atBreak (k : Cursor) : Bool :=
  match k.rest with
  | c :: _ => isBreak c
  | [] => false

def atBlank (k : Cursor) : Bool :=
  match k.rest with
  | c :: _ => isBlank c
  | [] => false

def next (k : Cursor) : Cursor :=
  match k.rest with
  | [] => k
  | c :: rest => if isBreak c then ⟨rest, k.line + 1, 0⟩ else ⟨rest, k.line, k.column + 1⟩

/-- Some characters further on the same line. -/
def skip (n : Nat) (k : Cursor) : Cursor := ⟨k.rest.drop n, k.line, k.column + n⟩

/-- The characters up to the first one that fails a test, all on one line, and the position
there. -/
def span (p : Char → Bool) (k : Cursor) : List Char × Cursor :=
  let word := k.rest.takeWhile fun c => p c && !isBreak c
  (word, k.skip word.length)

def skipBlanks (k : Cursor) : Cursor := (k.span isBlank).2

def skipLine (k : Cursor) : Cursor := (k.span fun _ => true).2

def skipBreak (k : Cursor) : Cursor := if k.atBreak then k.next else k

/-- Behind a byte order mark at the start of a line, which takes up a column. -/
def skipOrderMark (k : Cursor) : Cursor :=
  if k.column = 0 && k.sees 0 '\uFEFF' then k.skip 1 else k

/-- Behind the blanks and a comment, if one is there. -/
def skipComment (k : Cursor) : Cursor :=
  let k := k.skipBlanks
  if k.sees 0 '#' then k.skipLine else k

/-- At the start of a line that separates documents. -/
def atDocumentMark (k : Cursor) : Bool :=
  k.column = 0 && k.endsAt 3 &&
    (k.rest.take 3 = ['-', '-', '-'] || k.rest.take 3 = ['.', '.', '.'])

end Cursor

end SemanticStore.Yaml
