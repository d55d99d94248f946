import SemanticStore.Json.Token
import SemanticStore.Yaml.Cursor

/-!
# Scalars as written

The five ways to write a scalar: plain, in single or double quotes, and as a block that keeps or
folds its lines. Each reader takes the position where the scalar starts and gives its text and the
position behind it. Loops run on a number of steps that the length of the text bounds.
-/

namespace SemanticStore.Yaml

/-! ### White space inside of a scalar -/

/-- The white space since the last character of a scalar: the blanks on its line, newest first, or
the line breaks, the first one apart from the others, which are newest first. -/
structure Gap where
  blanks : List Char
  firstBreak : Option Char
  laterBreaks : List Char
  /-- a line has ended -/
  broken : Bool

namespace Gap

def empty : Gap := ⟨[], none, [], false⟩

/-- What a gap stands for, newest first: a single break becomes a blank, and of several the first is
left out; separators are never left out. -/
def fold (g : Gap) : List Char :=
  if g.broken then
    match g.firstBreak with
    | some '\n' => if g.laterBreaks = [] then [' '] else g.laterBreaks
    | some c => g.laterBreaks ++ [c]
    | none => g.laterBreaks
  else g.blanks

/-- Takes up the white space at a position. A tab must not stand before the column `least` of a
further line. -/
def gather? (least : Nat) : Nat → Gap → Cursor → Option (Gap × Cursor)
  | 0, g, k => some (g, k)
  | steps + 1, g, k =>
      match k.rest with
      | c :: _ =>
          if isBreak c then
            if g.broken then gather? least steps { g with laterBreaks := c :: g.laterBreaks } k.next
            else gather? least steps ⟨[], some c, g.laterBreaks, true⟩ k.next
          else if isBlank c then
            if g.broken then
              if c = '\t' && k.column < least then none else gather? least steps g k.next
            else gather? least steps { g with blanks := c :: g.blanks } k.next
          else some (g, k)
      | [] => some (g, k)

end Gap

/-! ### Plain scalars -/

namespace Plain

/-- A character that ends a plain scalar within brackets or braces. -/
def isFlowMark (c : Char) : Bool := c = ',' || c = '[' || c = ']' || c = '{' || c = '}'

def endsBefore (flow : Bool) (k : Cursor) : Bool :=
  (k.sees 0 ':' && k.endsAt 1) ||
    flow && match k.rest with
      | c :: _ => isFlowMark c
      | [] => false

/-- A colon that nothing can follow: within brackets or braces, in front of one of their marks. -/
def hasStrayColon (flow : Bool) (k : Cursor) : Bool :=
  flow && k.sees 0 ':' && match k.peek? 1 with
    | some c => isFlowMark c || c = '?'
    | none => false

/-- The characters up to a gap or the end of the scalar; `text` is newest first. -/
def piece? (flow : Bool) : Nat → List Char → Gap → Cursor → Option (List Char × Gap × Cursor)
  | 0, text, g, k => some (text, g, k)
  | steps + 1, text, g, k =>
      match k.rest with
      | [] => some (text, g, k)
      | c :: _ =>
          if isBlank c || isBreak c then some (text, g, k)
          else if hasStrayColon flow k then none
          else if endsBefore flow k then some (text, g, k)
          else piece? flow steps (c :: (g.fold ++ text)) .empty k.next

/-- Pieces with gaps between them; further lines have to reach the column `least`, but within
brackets and braces. The result tells whether the scalar is followed by a line break. -/
def pieces? (flow : Bool) (least : Nat) :
    Nat → List Char → Gap → Cursor → Option (List Char × Bool × Cursor)
  | 0, text, g, k => some (text, g.broken, k)
  | steps + 1, text, g, k =>
      if k.atDocumentMark || k.sees 0 '#' then some (text, g.broken, k)
      else do
        let (text, g, k) ← piece? flow (k.rest.length + 1) text g k
        if !(k.atBlank || k.atBreak) then some (text, g.broken, k)
        else
          let (g, k) ← g.gather? least (k.rest.length + 1) k
          if !flow && k.column < least then some (text, g.broken, k)
          else pieces? flow least steps text g k

def read? (flow : Bool) (least : Nat) (k : Cursor) : Option (String × Bool × Cursor) :=
  (pieces? flow least (k.rest.length + 1) [] .empty k).map fun (text, broken, k) =>
    (String.ofList text.reverse, broken, k)

end Plain

/-! ### Quoted scalars -/

namespace Quoted

/-- The character that an escape with one letter stands for. -/
def escaped? : Char → Option Char
  | '0' => some '\x00'
  | 'a' => some '\x07'
  | 'b' => some '\x08'
  | 't' => some '\t'
  | '\t' => some '\t'
  | 'n' => some '\n'
  | 'v' => some '\x0b'
  | 'f' => some '\x0c'
  | 'r' => some '\r'
  | 'e' => some '\x1b'
  | ' ' => some ' '
  | '"' => some '"'
  | '/' => some '/'
  | '\\' => some '\\'
  | 'N' => some '\u0085'
  | '_' => some '\u00a0'
  | 'L' => some '\u2028'
  | 'P' => some '\u2029'
  | _ => none

def codeLength? : Char → Option Nat
  | 'x' => some 2
  | 'u' => some 4
  | 'U' => some 8
  | _ => none

def ofCode? (digits : List Char) : Option Char := do
  let n := (← digits.mapM Json.Token.hexDigit?).foldl (fun n d => n * 16 + d) 0
  if n.isValidChar then some (Char.ofNat n) else none

/-- An escape, at its backslash: the character it stands for and the position behind it. -/
def escape? (k : Cursor) : Option (Char × Cursor) := do
  let c ← k.peek? 1
  match codeLength? c with
  | some n =>
      let digits := (k.rest.drop 2).take n
      if digits.length = n then some (← ofCode? digits, k.skip (2 + n)) else none
  | none => some (← escaped? c, k.skip 2)

/-- The characters up to a gap or the closing quote, with the gap that has begun; `text` is newest
first. -/
def piece? (quote : Char) : Nat → List Char → Cursor → Option (List Char × Gap × Cursor)
  | 0, _, _ => none
  | steps + 1, text, k =>
      match k.rest with
      | [] => some (text, .empty, k)
      | c :: rest =>
          if isBlank c || isBreak c then some (text, .empty, k)
          else if quote = '\'' then
            if c = '\'' then
              if rest.head? = some '\'' then piece? quote steps ('\'' :: text) (k.skip 2)
              else some (text, .empty, k)
            else piece? quote steps (c :: text) k.next
          else if c = '"' then some (text, .empty, k)
          else if c = '\\' then
            if (k.skip 1).atBreak then
              some (text, { Gap.empty with broken := true }, (k.skip 1).next)
            else
              match escape? k with
              | some (e, k) => piece? quote steps (e :: text) k
              | none => none
          else piece? quote steps (c :: text) k.next

/-- Pieces with gaps between them, up to the closing quote. -/
def pieces? (quote : Char) : Nat → List Char → Cursor → Option (List Char × Cursor)
  | 0, _, _ => none
  | steps + 1, text, k =>
      if k.atDocumentMark || k.rest.isEmpty then none
      else do
        let (text, g, k) ← piece? quote (k.rest.length + 1) text k
        if k.sees 0 quote then some (text, k.skip 1)
        else
          let (g, k) ← g.gather? 0 (k.rest.length + 1) k
          pieces? quote steps (g.fold ++ text) k

/-- A scalar in quotes, at the opening one. -/
def read? (quote : Char) (k : Cursor) : Option (String × Cursor) :=
  (pieces? quote (k.rest.length + 1) [] (k.skip 1)).map fun (text, k) =>
    (String.ofList text.reverse, k)

end Quoted

/-! ### Block scalars -/

namespace Block

inductive Chomping where
  | strip
  | clip
  | keep
deriving DecidableEq

def chomping? : Char → Option Chomping
  | '-' => some .strip
  | '+' => some .keep
  | _ => none

/-- The marks behind the opening one: chomping and indentation in any order, each at most once. An
indentation of zero is none. -/
def marks? (k : Cursor) : Option (Chomping × Option Nat × Cursor) :=
  let digit? (k : Cursor) : Option Nat := (k.peek? 0).bind Decimal.digit?
  match (k.peek? 0).bind chomping? with
  | some chomping =>
      let k := k.skip 1
      match digit? k with
      | some 0 => none
      | some d => some (chomping, some d, k.skip 1)
      | none => some (chomping, none, k)
  | none =>
      match digit? k with
      | some 0 => none
      | some d =>
          let k := k.skip 1
          match (k.peek? 0).bind chomping? with
          | some chomping => some (chomping, some d, k.skip 1)
          | none => some (.clip, some d, k)
      | none => some (.clip, none, k)

/-- Empty lines: the deepest column reached, the breaks in order, and the position behind the
indentation of the next line. Without an indentation all blanks are taken for it. -/
def emptyLines? (indent : Option Nat) :
    Nat → Nat → List Char → Cursor → Option (Nat × List Char × Cursor)
  | 0, deepest, breaks, k => some (deepest, breaks, k)
  | steps + 1, deepest, breaks, k =>
      let spaces := (k.span (· = ' ')).1.length
      let k := match indent with
        | none => k.skip spaces
        | some n => k.skip (min spaces (n - k.column))
      let deepest := max deepest k.column
      let inside := match indent with
        | none => true
        | some n => k.column < n
      if inside && k.sees 0 '\t' then none
      else match k.rest with
        | c :: _ =>
            if isBreak c then emptyLines? indent steps deepest (breaks ++ [c]) k.next
            else some (deepest, breaks, k)
        | [] => some (deepest, breaks, k)

/-- The lines of a block that are indented so far: the text, the break after the last line and the
breaks of the empty lines after it. `wasBlank` tells that the line before started with a blank. -/
def lines? (folded : Bool) (indent : Nat) :
    Nat → Bool → List Char → List Char → List Char → Cursor →
      Option (List Char × List Char × List Char × Cursor)
  | 0, _, text, last, empties, k => some (text, last, empties, k)
  | steps + 1, wasBlank, text, last, empties, k =>
      if k.column = indent && !k.rest.isEmpty then
        let startsBlank := k.atBlank
        let joint :=
          if folded && last = ['\n'] && !wasBlank && !startsBlank then
            if empties = [] then [' '] else empties
          else last ++ empties
        let (line, k) := k.span fun _ => true
        let last := k.rest.take 1
        match emptyLines? (some indent) (k.rest.length + 1) 0 [] k.skipBreak with
        | some (_, empties, k) =>
            lines? folded indent steps startsBlank (text ++ joint ++ line) last empties k
        | none => none
      else some (text, last, empties, k)

/-- A block scalar, at its opening mark, in a block that is indented to `outer`. -/
def read? (folded : Bool) (outer : Int) (k : Cursor) : Option (String × Cursor) := do
  let (chomping, given, k) ← marks? (k.skip 1)
  let k := k.skipComment
  if !(k.atBreak || k.rest.isEmpty) then none
  else
    let k := k.skipBreak
    let indent := given.map fun d => if 0 ≤ outer then outer.toNat + d else d
    let (deepest, empties, k) ← emptyLines? indent (k.rest.length + 1) 0 [] k
    let indent := indent.getD (max deepest (max (outer + 1).toNat 1))
    let (text, last, empties, k) ← lines? folded indent (k.rest.length + 1) false [] [] empties k
    let tail := match chomping with
      | .strip => []
      | .clip => last
      | .keep => last ++ empties
    some (String.ofList (text ++ tail), k)

end Block

end SemanticStore.Yaml
