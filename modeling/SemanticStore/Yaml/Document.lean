import SemanticStore.Keyed
import SemanticStore.Yaml.Token

/-!
# YAML documents

The tree of nodes that tokens describe. A node may be anchored by a name, and a reference stands for
the node that its name was last given to, which is looked up only where it is needed, so a document
may refer to itself. `Document.ofText?` reads a text that holds at most one document.
-/

namespace SemanticStore.Yaml

inductive Node where
  | scalar (tag : Option String) (style : Style) (text : String)
  | sequence (tag : Option String) (items : List Node)
  | mapping (tag : Option String) (entries : List (Node × Node))
  /-- another node, by its number among the anchored names -/
  | reference (number : Nat)

/-- A document: its root if it has one, and its anchored nodes by number. -/
structure Document where
  root : Option Node
  anchored : List (Nat × Node)
  /-- how many marks the document is made of: one for a scalar or an alias, two for a collection -/
  size : Nat

namespace Document

/-- What is known while the tokens of a document are read. -/
structure Reading where
  tokens : List Token
  /-- the tag handles in use, with what they stand for -/
  handles : List (String × String)
  /-- the anchored names with their numbers -/
  names : List (String × Nat)
  /-- for each number, which of the anchors counts that took it -/
  latest : List (Nat × Nat)
  /-- the nodes that have been read, by the count of their anchors -/
  nodes : List (Nat × Node)
  /-- how many anchors there have been -/
  anchors : Nat
  size : Nat

/-- A step of reading; it may fail. -/
abbrev Reader := StateT Reading Option

/-- The handles that need no declaration. -/
def standardHandles : List (String × String) := [("!", "!"), ("!!", "tag:yaml.org,2002:")]

def Reading.start (tokens : List Token) : Reading := ⟨tokens, standardHandles, [], [], [], 0, 0⟩

/-! ### Single steps -/

def peek : Reader (Option Token) := fun r => some (r.tokens.head?, r)

def drop : Reader Unit := fun r => some ((), { r with tokens := r.tokens.tail })

def sees (ts : List Token) : Reader Bool := fun r =>
  some (match r.tokens with
    | t :: _ => ts.contains t
    | [] => false, r)

def refuse {α : Type} : Reader α := fun _ => none

def count (n : Nat) : Reader Unit := fun r => some ((), { r with size := r.size + n })

/-- Anchors a node that is about to be read; a name that is new gets the next number, and so does
one that is given again. -/
def anchor (name : String) : Reader Nat := fun r =>
  let number := r.names.length
  some (r.anchors,
    { r with
      names := Keyed.put name number r.names
      latest := Keyed.put number r.anchors r.latest
      anchors := r.anchors + 1 })

def remember (place : Option Nat) (n : Node) : Reader Node := fun r =>
  match place with
  | some place => some (n, { r with nodes := (place, n) :: r.nodes })
  | none => some (n, r)

/-- The full text of a tag. -/
def expand (handle suffix : String) : Reader String := fun r =>
  if handle.isEmpty then some (suffix, r)
  else (r.handles.lookup handle).map fun expansion => (expansion ++ suffix, r)

/-- An empty scalar, where a node is missing. -/
def emptyNode : Reader Node := do
  count 1
  return .scalar none .plain ""

/-! ### Properties -/

def anchorName : Reader (Option String) := do
  match ← peek with
  | some (.anchor name) => drop; return some name
  | _ => return none

def tagText : Reader (Option String) := do
  match ← peek with
  | some (.tag handle suffix) => drop; return some (← expand handle suffix)
  | _ => return none

/-- The anchor and the tag of a node, in any order. -/
def properties : Reader (Option String × Option String) := do
  match ← anchorName with
  | some name => return (some name, ← tagText)
  | none =>
      let tag ← tagText
      return (← if tag.isSome then anchorName else pure none, tag)

/-- The tag of a scalar; a lone exclamation mark is none. -/
def scalarTag (tag : Option String) : Option String := tag.filter (· ≠ "!")

/-! ### Nodes -/

mutual

/-- A node. Only within `block` structure may it be a block collection, and only as the value or key
of a block mapping may it be a sequence whose entries are not indented. -/
def node (block flat : Bool) : Nat → Reader Node
  | 0 => refuse
  | steps + 1 => do
      match ← peek with
      | some (.reference name) =>
          drop
          count 1
          match (← get).names.lookup name with
          | some number => return .reference number
          | none => refuse
      | _ =>
          let (name, tag) ← properties
          let place ← match name with
            | some name => some <$> anchor name
            | none => pure none
          match ← peek with
          | some (.scalar style text) =>
              drop
              count 1
              remember place (.scalar (scalarTag tag) style text)
          | some .flowSequence =>
              drop
              count 2
              remember place (.sequence tag (← flowItems true steps))
          | some .flowMapping =>
              drop
              count 2
              remember place (.mapping tag (← flowEntries true steps))
          | some .blockEntry =>
              if flat then
                count 2
                remember place (.sequence tag (← flatItems steps))
              else missing place name tag
          | some .blockSequence =>
              if block then
                drop
                count 2
                remember place (.sequence tag (← blockItems steps))
              else missing place name tag
          | some .blockMapping =>
              if block then
                drop
                count 2
                remember place (.mapping tag (← blockEntries steps))
              else missing place name tag
          | _ => missing place name tag

/-- A node that is written by its properties alone. -/
def missing (place : Option Nat) (name tag : Option String) : Reader Node :=
  if name.isSome || tag.isSome then do
    count 1
    remember place (.scalar tag .plain "")
  else refuse

/-- A node in block structure, or an empty one in front of one of some tokens. -/
def blockNode (flat : Bool) (before : List Token) : Nat → Reader Node
  | 0 => refuse
  | steps + 1 => do if ← sees before then emptyNode else node true flat steps

def blockItems : Nat → Reader (List Node)
  | 0 => refuse
  | steps + 1 => do
      match ← peek with
      | some .blockEntry =>
          drop
          let item ← blockNode false [.blockEntry, .blockEnd] steps
          return item :: (← blockItems steps)
      | some .blockEnd => drop; return []
      | _ => refuse

/-- The items of a sequence whose entries are not indented. -/
def flatItems : Nat → Reader (List Node)
  | 0 => refuse
  | steps + 1 => do
      match ← peek with
      | some .blockEntry =>
          drop
          let item ← blockNode false [.blockEntry, .key, .value, .blockEnd] steps
          return item :: (← flatItems steps)
      | _ => return []

def blockEntries : Nat → Reader (List (Node × Node))
  | 0 => refuse
  | steps + 1 => do
      let side (t : Token) : Reader Node := do
        if ← sees [t] then
          drop
          blockNode true [.key, .value, .blockEnd] steps
        else emptyNode
      match ← peek with
      | some .key =>
          let k ← side .key
          let v ← side .value
          return (k, v) :: (← blockEntries steps)
      | some .blockEnd => drop; return []
      | _ => refuse

/-- A comma behind an item, but for the first one. -/
def flowSeparator (first : Bool) : Reader Unit := do
  if first then return ()
  else if ← sees [.flowEntry] then drop
  else refuse

/-- A node within brackets or braces, behind a mark if the mark is there; an empty one if the mark
is missing or one of some tokens follows it. -/
def flowSide (t : Token) (before : List Token) : Nat → Reader Node
  | 0 => refuse
  | steps + 1 => do
      if ← sees [t] then
        drop
        if ← sees before then emptyNode else node false false steps
      else emptyNode

/-- The items of a sequence in brackets, to the closing one. A key makes its item a mapping with one
entry. -/
def flowItems (first : Bool) : Nat → Reader (List Node)
  | 0 => refuse
  | steps + 1 => do
      if ← sees [.flowSequenceEnd] then drop; return []
      flowSeparator first
      match ← peek with
      | some .key =>
          drop
          count 2
          let k ←
            if ← sees [.value, .flowEntry, .flowSequenceEnd] then drop; emptyNode
            else node false false steps
          let v ← flowSide .value [.flowEntry, .flowSequenceEnd] steps
          return .mapping none [(k, v)] :: (← flowItems false steps)
      | some .flowSequenceEnd => drop; return []
      | _ =>
          let item ← node false false steps
          return item :: (← flowItems false steps)

/-- The entries of a mapping in braces, to the closing one. -/
def flowEntries (first : Bool) : Nat → Reader (List (Node × Node))
  | 0 => refuse
  | steps + 1 => do
      if ← sees [.flowMappingEnd] then drop; return []
      flowSeparator first
      match ← peek with
      | some .key =>
          let k ← flowSide .key [.value, .flowEntry, .flowMappingEnd] steps
          let v ← flowSide .value [.flowEntry, .flowMappingEnd] steps
          return (k, v) :: (← flowEntries false steps)
      | some .flowMappingEnd => drop; return []
      | _ =>
          let k ← node false false steps
          let v ← emptyNode
          return (k, v) :: (← flowEntries false steps)

end

/-! ### Texts -/

/-- Takes up the directives in front of a document: versions 1.1 and 1.2 are known, and neither the
version nor a handle is declared twice. -/
def directives (version : Bool) (handles : List (String × String)) :
    List Token → Option (List (String × String) × List Token)
  | .version major minor :: rest =>
      if version || major ≠ 1 || (minor ≠ 1 && minor ≠ 2) then none
      else directives true handles rest
  | .tagHandle handle expansion :: rest =>
      if (handles.lookup handle).isSome then none
      else directives version (handles ++ [(handle, expansion)]) rest
  | rest => some (handles, rest)

/-- The tokens between which a document has no content. -/
def isBoundary : Token → Bool
  | .version _ _ => true
  | .tagHandle _ _ => true
  | .documentStart => true
  | .documentEnd => true
  | _ => false

/-- The root of a document whose first token is none of those in front of it. -/
def content (explicit : Bool) : Reader Node := fun r =>
  let atEnd := match r.tokens.head? with
    | none => true
    | some t => isBoundary t
  if explicit && atEnd then emptyNode r else node true false (3 * r.tokens.length + 3) r

def first? (tokens : List Token) : Option (Node × Reading) :=
  match tokens with
  | t :: _ =>
      if isBoundary t && t ≠ .documentEnd then
        match directives false [] tokens with
        | some (handles, .documentStart :: rest) =>
            (content true).run { Reading.start rest with handles := handles ++ standardHandles }
        | _ => none
      else (content false).run (.start tokens)
  | [] => none

/-- The document of a text, which must not hold a second one. -/
def ofTokens? (tokens : List Token) : Option Document :=
  if tokens.isEmpty then some ⟨none, [], 0⟩
  else do
    let (root, r) ← first? tokens
    if r.tokens.all (· = .documentEnd) then
      let anchored := r.latest.filterMap fun (number, place) =>
        (r.nodes.lookup place).map (number, ·)
      some ⟨some root, anchored, r.size⟩
    else none

def ofText? (text : String) : Option Document := do ofTokens? (← Token.ofText? text)

/-- The anchored node that an alias stands for. -/
def target? (d : Document) (number : Nat) : Option Node := d.anchored.lookup number

end Document

end SemanticStore.Yaml
