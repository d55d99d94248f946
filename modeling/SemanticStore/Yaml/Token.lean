import SemanticStore.Yaml.Quoting

/-!
# YAML tokens

`Token.ofText?` cuts a text into tokens. Where a block collection opens or closes is told by
indentation alone, so the scan keeps the columns of the open ones. A scalar turns out to be a key
only at the colon behind it, so the scan also keeps, for each level of brackets, the token that may
still become one; the marks of the key and of a new mapping are then put in front of that token.
-/

namespace SemanticStore.Yaml

inductive Style where
  | plain
  /-- as a block that keeps its lines -/
  | literal
  /-- in quotes, or as a block that folds its lines -/
  | quoted
deriving DecidableEq

inductive Token where
  | version (major minor : Nat)
  | tagHandle (handle expansion : String)
  | documentStart
  | documentEnd
  | blockSequence
  | blockMapping
  | blockEnd
  | flowSequence
  | flowSequenceEnd
  | flowMapping
  | flowMappingEnd
  | blockEntry
  | flowEntry
  | key
  | value
  | reference (name : String)
  | anchor (name : String)
  | tag (handle suffix : String)
  | scalar (style : Style) (text : String)
deriving DecidableEq

namespace Token

/-! ### Directives, anchors and tags -/

/-- A part of a version number, of nine digits at most. -/
def versionPart? (k : Cursor) : Option (Nat × Cursor) :=
  let (digits, k) := k.span Char.isDigit
  if digits.isEmpty || 9 < digits.length then none
  else some (Decimal.ofDigits 0 (digits.filterMap Decimal.digit?), k)

/-- The handle of a tag, at its exclamation mark: one, or a word between two. A handle that is
declared is one of these; another may also lack the second mark. -/
def handle? (declared : Bool) (k : Cursor) : Option (String × Cursor) :=
  if !k.sees 0 '!' then none
  else
    let (word, k) := (k.skip 1).span isWordChar
    if k.sees 0 '!' then some (String.ofList ('!' :: word ++ ['!']), k.skip 1)
    else if declared && !word.isEmpty then none
    else some (String.ofList ('!' :: word), k)

/-- A character of a tag; `verbatim` allows commas and brackets too. -/
def isTagChar (verbatim : Bool) (c : Char) : Bool :=
  isWordChar c || ";/?:@&=+$.%!~*\x27()".toList.contains c || (verbatim && ",[]".toList.contains c)

/-- Resolves the escapes of a tag, which give the bytes of its characters in hexadecimal. -/
def unescape? : List Char → Option (List UInt8)
  | [] => some []
  | '%' :: a :: b :: rest => do
      let x ← Json.Token.hexDigit? a
      let y ← Json.Token.hexDigit? b
      return UInt8.ofNat (x * 16 + y) :: (← unescape? rest)
  | c :: rest =>
      if c = '%' then none
      else (unescape? rest).map ((String.ofList [c]).toUTF8.toList ++ ·)

def tagText? (verbatim : Bool) (k : Cursor) : Option (String × Cursor) := do
  let (chars, k) := k.span (isTagChar verbatim)
  let text ← String.fromUTF8? ⟨(← unescape? chars).toArray⟩
  some (text, k)

def directive? (k : Cursor) : Option (Token × Cursor) := do
  let (name, k) := (k.skip 1).span isWordChar
  if !k.endsAt 0 then none
  else
    let k := k.skipBlanks
    let (token, k) ←
      if name = "YAML".toList then do
        let (major, k) ← versionPart? k
        if !k.sees 0 '.' then none
        else
          let (minor, k) ← versionPart? (k.skip 1)
          some (version major minor, k)
      else if name = "TAG".toList then do
        let (handle, k) ← handle? true k
        if !k.atBlank then none
        else
          let (expansion, k) ← tagText? true k.skipBlanks
          if expansion.isEmpty || !k.endsAt 0 then none
          else some (tagHandle handle expansion, k)
      else none
    let k := k.skipComment
    if k.atBreak || k.rest.isEmpty then some (token, k.skipBreak) else none

def name? (k : Cursor) : Option (String × Cursor) :=
  let (word, k) := (k.skip 1).span isWordChar
  let ends := k.endsAt 0 || match k.peek? 0 with
    | some c => "?:,]\x7d%@\x60".toList.contains c
    | none => true
  if word.isEmpty || !ends then none else some (String.ofList word, k)

/-- A tag, at its exclamation mark: in angle brackets, or a handle with a suffix. A lone exclamation
mark has no handle. -/
def tag? (flow : Bool) (k : Cursor) : Option (Token × Cursor) := do
  let (token, k) ←
    if k.sees 1 '<' then do
      let (text, k) ← tagText? true (k.skip 2)
      if text.isEmpty || !k.sees 0 '>' then none else some (tag "" text, k.skip 1)
    else do
      let (handle, k) ← handle? false k
      let (suffix, k) ← tagText? false k
      if 1 < handle.length && handle.endsWith "!" then
        if suffix.isEmpty then none else some (tag handle suffix, k)
      else
        let suffix := String.ofList (handle.toList.drop 1) ++ suffix
        some (if suffix.isEmpty then tag "" "!" else tag "!" suffix, k)
  if k.endsAt 0 || (flow && k.sees 0 ',') then some (token, k) else none

/-! ### The scan -/

/-- A token that may turn out to be a key. -/
structure Candidate where
  /-- how many tokens there are before it -/
  number : Nat
  line : Nat
  column : Nat
  /-- nothing else can stand here -/
  required : Bool

/-- How far from its colon a key may start. -/
def keyLength : Nat := 1024

structure Scan where
  cursor : Cursor
  /-- newest first -/
  tokens : List Token
  /-- the columns of the open block collections, innermost first -/
  indents : List Nat
  /-- the candidate of each level of brackets, innermost first; the last one is that outside of all
  brackets -/
  candidates : List (Option Candidate)
  /-- a key may start here -/
  keyAllowed : Bool

namespace Scan

def start (text : List Char) : Scan := ⟨.start text, [], [], [none], true⟩

/-- Within brackets or braces. -/
def flow (s : Scan) : Bool := 1 < s.candidates.length

/-- The column of the innermost block collection. -/
def indent (s : Scan) : Int :=
  match s.indents with
  | n :: _ => n
  | [] => -1

def emit (t : Token) (s : Scan) : Scan := { s with tokens := t :: s.tokens }

/-- Puts tokens behind the first `number` ones. -/
def insertAt (number : Nat) (ts : List Token) (s : Scan) : Scan :=
  let later := s.tokens.length - number
  { s with tokens := s.tokens.take later ++ ts.reverse ++ s.tokens.drop later }

/-- Adds a token that is a mark of some characters. -/
def mark (t : Token) (n : Nat) (s : Scan) : Scan :=
  { s.emit t with cursor := s.cursor.skip n }

/-- Closes the block collections that are indented deeper than a column. -/
def closeTo (column : Int) (s : Scan) : Scan :=
  if s.flow then s
  else
    let deeper := s.indents.takeWhile fun (n : Nat) => column < (n : Int)
    { s with
      indents := s.indents.drop deeper.length
      tokens := deeper.map (fun _ => blockEnd) ++ s.tokens }

/-- Opens a block collection at a column if no open one is indented that deep. `number` is where its
token goes. -/
def openAt (column : Nat) (t : Token) (number : Nat) (s : Scan) : Scan :=
  if s.flow || (column : Int) ≤ s.indent then s
  else { s.insertAt number [t] with indents := column :: s.indents }

def candidate? (s : Scan) : Option Candidate := s.candidates.head?.join

def setCandidate (c : Option Candidate) (s : Scan) : Scan :=
  { s with candidates := c :: s.candidates.tail }

/-- Gives up the candidate of the present level, which must not be required. -/
def dropCandidate? (s : Scan) : Option Scan :=
  match s.candidate? with
  | some c => if c.required then none else some (s.setCandidate none)
  | none => some s

/-- Makes the next token the candidate, where a key may start. -/
def saveCandidate? (s : Scan) : Option Scan :=
  if s.keyAllowed then do
    let s ← s.dropCandidate?
    let k := s.cursor
    some <| s.setCandidate <| some
      ⟨s.tokens.length, k.line, k.column, !s.flow && s.indent = (k.column : Int)⟩
  else some s

/-- The candidate is on another line or too far away. -/
def isStale (k : Cursor) (c : Candidate) : Bool :=
  c.line < k.line || c.column + keyLength < k.column

/-- Gives up the stale candidates, of which none must be required. -/
def dropStale? (s : Scan) : Option Scan := do
  let candidates ← s.candidates.mapM fun c =>
    match c with
    | some c => if isStale s.cursor c then if c.required then none else some none else some (some c)
    | none => some none
  some { s with candidates := candidates }

/-- Skips blanks, comments and line breaks, and a byte order mark at the start of a line. Outside of
brackets a tab is no blank where a key may start, and a line break makes room for a key. -/
def skipToToken : Nat → Scan → Scan
  | 0, s => s
  | steps + 1, s =>
      let tabs := s.flow || !s.keyAllowed
      let k := s.cursor.skipOrderMark
      let k := (k.span fun c => c = ' ' || (tabs && c = '\t')).2
      let k := if k.sees 0 '#' then k.skipLine else k
      if k.atBreak then
        skipToToken steps { s with cursor := k.next, keyAllowed := s.keyAllowed || !s.flow }
      else { s with cursor := k }

/-! ### Tokens -/

/-- A mark that separates documents, or a directive: all blocks end before it. -/
def betweenDocuments? (s : Scan) : Option Scan := do
  let s ← (s.closeTo (-1)).dropCandidate?
  some { s with keyAllowed := false }

def openFlow? (t : Token) (s : Scan) : Option Scan := do
  let s ← s.saveCandidate?
  some { s.mark t 1 with candidates := none :: s.candidates, keyAllowed := true }

def closeFlow? (t : Token) (s : Scan) : Option Scan := do
  let s ← s.dropCandidate?
  let candidates := match s.candidates with
    | _ :: c :: rest => c :: rest
    | candidates => candidates
  some { s.mark t 1 with candidates := candidates, keyAllowed := false }

/-- A dash or a question mark, which in a block opens a collection unless one is open here. -/
def openWith? (collection mark : Token) (s : Scan) : Option Scan := do
  if !s.flow && !s.keyAllowed then none
  else
    let s ← (s.openAt s.cursor.column collection s.tokens.length).dropCandidate?
    some (s.mark mark 1)

def value? (s : Scan) : Option Scan :=
  match s.candidate? with
  | some c =>
      let s := (s.insertAt c.number [key]).openAt c.column blockMapping c.number
      some { (s.setCandidate none).mark value 1 with keyAllowed := false }
  | none =>
      if s.flow then some { s.mark value 1 with keyAllowed := false }
      else if s.keyAllowed then
        some ((s.openAt s.cursor.column blockMapping s.tokens.length).mark value 1)
      else none

/-- A token that may start a key and has to be followed by something else than another key. -/
def content? (read : Cursor → Option (Token × Cursor)) (s : Scan) : Option Scan := do
  let s ← s.saveCandidate?
  let (t, k) ← read s.cursor
  some { s.emit t with cursor := k, keyAllowed := false }

def block? (style : Style) (s : Scan) : Option Scan := do
  let s ← s.dropCandidate?
  let (text, k) ← Block.read? (style ≠ .literal) s.indent s.cursor
  some { s.emit (scalar style text) with cursor := k, keyAllowed := true }

/-- A plain scalar. A line break behind it makes room for a key. -/
def plain? (s : Scan) : Option Scan := do
  let s ← s.saveCandidate?
  let (text, broken, k) ← Plain.read? s.flow (s.indent + 1).toNat s.cursor
  some { s.emit (scalar .plain text) with cursor := k, keyAllowed := broken }

/-- A character that starts a plain scalar only under a condition, or never. -/
def isIndicator (c : Char) : Bool := c = '-' || c = '?' || c = ':' || isReserved c

/-- A plain scalar may start here. -/
def startsPlain (flow : Bool) (k : Cursor) (c : Char) : Bool :=
  !(isIndicator c || isBlank c || isBreak c) ||
    (c = '-' && !(k.sees 1 ' ' || k.sees 1 '\t')) ||
    (!flow && (c = '?' || c = ':') && !k.endsAt 1)

/-- The token that starts with a character at the position of the scan. -/
def token? (c : Char) (s : Scan) : Option Scan :=
  let k := s.cursor
  let quotes (q : Char) : Cursor → Option (Token × Cursor) := fun k =>
    (Quoted.read? q k).map fun (text, k) => (scalar .quoted text, k)
  if k.column = 0 && c = '%' then do
    let s ← s.betweenDocuments?
    let (t, k) ← directive? k
    some { s.emit t with cursor := k }
  else if k.atDocumentMark then
    s.betweenDocuments?.map fun s => s.mark (if c = '-' then documentStart else documentEnd) 3
  else if c = '[' then s.openFlow? flowSequence
  else if c = '{' then s.openFlow? flowMapping
  else if c = ']' then s.closeFlow? flowSequenceEnd
  else if c = '}' then s.closeFlow? flowMappingEnd
  else if c = ',' then
    s.dropCandidate?.map fun s => { s.mark flowEntry 1 with keyAllowed := true }
  else if c = '-' && k.endsAt 1 then
    (s.openWith? blockSequence blockEntry).map fun s => { s with keyAllowed := true }
  else if c = '?' && (s.flow || k.endsAt 1) then
    (s.openWith? blockMapping key).map fun s => { s with keyAllowed := !s.flow }
  else if c = ':' && (s.flow || k.endsAt 1) then s.value?
  else if c = '*' then s.content? fun k => (name? k).map fun (n, k) => (reference n, k)
  else if c = '&' then s.content? fun k => (name? k).map fun (n, k) => (anchor n, k)
  else if c = '!' then s.content? (tag? s.flow)
  else if c = '|' && !s.flow then s.block? .literal
  else if c = '>' && !s.flow then s.block? .quoted
  else if c = '\'' then s.content? (quotes '\'')
  else if c = '"' then s.content? (quotes '"')
  else if startsPlain s.flow k c then s.plain?
  else none

/-- Scans to the end of the text, where all blocks end. -/
def run? : Nat → Scan → Option (List Token)
  | 0, _ => none
  | steps + 1, s => do
      let s ← (s.skipToToken (s.cursor.rest.length + 1)).dropStale?
      match s.cursor.rest with
      | [] => return (← s.betweenDocuments?).tokens.reverse
      | c :: _ => run? steps (← (s.closeTo s.cursor.column).token? c)

end Scan

def ofText? (text : String) : Option (List Token) :=
  if text.toList.all isAllowed then
    let chars := uniformBreaks text.toList
    Scan.run? (chars.length + 1) (.start chars)
  else none

end Token

end SemanticStore.Yaml
