import SemanticStore.Yaml.Value

/-!
# Records in YAML documents

Reading named fields straight from the nodes of a document. Where a text is asked for, every scalar
gives the text it is written with, whatever its value would be; an empty plain scalar stands for a
record without fields.
-/

namespace SemanticStore.Yaml.Document

def resolve? (d : Document) : Node → Option Node
  | .reference place => d.target? place
  | n => some n

def text? (d : Document) (n : Node) : Option String :=
  match d.resolve? n with
  | some (.scalar _ _ s) => some s
  | _ => none

/-- A plain boolean, or a block with the tag of booleans. -/
def bool? (d : Document) (n : Node) : Option Bool :=
  match d.resolve? n with
  | some (.scalar tag style s) =>
      if style = .plain || (style = .literal && tag = some (Core.standard "bool")) then Core.bool? s
      else none
  | _ => none

/-- A value that may be missing: a plain scalar that is null stands for none. -/
def nullable {α : Type} (d : Document) (decode : Node → Option α) (n : Node) : Option (Option α) :=
  let given := (decode n).map some
  match d.resolve? n with
  | some (.scalar tag .plain s) =>
      if tag = some (Core.standard "null") then if Core.isNull s then some none else none
      else if tag.isNone && (s.isEmpty || Core.isNull s) then some none
      else given
  | _ => given

/-- The entries of a mapping with their keys as texts. -/
def keyed? (d : Document) : List (Node × Node) → Option (List (String × Node))
  | [] => some []
  | (k, v) :: rest => do
      let key ← d.text? k
      let more ← keyed? d rest
      some ((key, v) :: more)

/-- The fields of a record with these field names, each at most once. -/
def fields? (d : Document) (names : List String) (n : Node) : Option (List (String × Node)) :=
  match d.resolve? n with
  | some (.mapping _ entries) => (d.keyed? entries).bind (Structured.known? names)
  | some (.scalar _ .plain s) => if s.isEmpty then some [] else none
  | _ => none

/-- The fields of the record that the document is; an empty document has none. -/
def rootFields? (d : Document) (names : List String) : Option (List (String × Node)) :=
  match d.root with
  | some root => d.fields? names root
  | none => some []

def field {α : Type} (d : Document) (fields : List (String × Node)) (name : String)
    (decode : Node → Option α) : Option (Option α) :=
  Structured.optional fields name (d.nullable decode) none

end SemanticStore.Yaml.Document
