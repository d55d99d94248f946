import SemanticStore.Backend.Tables
import SemanticStore.Files.Path
import SemanticStore.Keyed

/-!
# File trees

The files that a program can see: directories and files by the names that lead to them from the
root, and the directory that relative paths start from. The root is always there. A file holds
bytes, or a database.
-/

namespace SemanticStore

/-- The names that lead from the root to a place. -/
abbrev Place := List String

inductive Content where
  | bytes (bs : List UInt8)
  | database (t : Tables)

inductive Entry where
  | directory
  | file (c : Content)

structure Files where
  entries : List (Place × Entry)
  current : Place

namespace Files

/-! ### Places -/

def entryAt (f : Files) (place : Place) : Option Entry :=
  if place.isEmpty then some .directory else Keyed.find? place f.entries

def isDirectoryAt (f : Files) (place : Place) : Bool :=
  match f.entryAt place with
  | some .directory => true
  | _ => false

/-- A name that a file system takes. -/
def isName (name : String) : Bool :=
  name.utf8ByteSize ≤ 255 && !name.toList.contains '\x00'

/-- Where names lead from a place; everything passed on the way has to be a directory. -/
def follow? (f : Files) (here : Place) : List String → Option Place
  | [] => some here
  | name :: rest =>
      if !f.isDirectoryAt here || !isName name then none
      else if name = ".." then follow? f here.dropLast rest
      else follow? f (here ++ [name]) rest

/-- The place that a path starts from. -/
def start (f : Files) (p : Path) : Place := if p.isAbsolute then [] else f.current

/-- The place of a path, whether or not something is there. -/
def place? (f : Files) (p : Path) : Option Place :=
  if p.text.isEmpty then none else f.follow? (f.start p) p.names

def lookup? (f : Files) (p : Path) : Option Entry := do
  match ← f.entryAt (← f.place? p) with
  | .directory => some .directory
  | .file c => if p.isDirectoryOnly then none else some (.file c)

/-- The place that names lead to when every pair of a name and two dots is struck out. -/
def lexicalPlace (here : Place) : List String → Place
  | [] => here
  | name :: rest =>
      if name = ".." then lexicalPlace here.dropLast rest else lexicalPlace (here ++ [name]) rest

/-! ### Operations -/

def isThere (f : Files) (p : Path) : Bool := (f.lookup? p).isSome

def isDirectory (f : Files) (p : Path) : Bool :=
  match f.lookup? p with
  | some .directory => true
  | _ => false

def read? (f : Files) (p : Path) : Option (List UInt8) :=
  match f.lookup? p with
  | some (.file (.bytes bs)) => some bs
  | _ => none

/-- The text of a file that holds UTF-8. -/
def readText? (f : Files) (p : Path) : Option String := do
  String.fromUTF8? ⟨(← f.read? p).toArray⟩

def put (f : Files) (place : Place) (e : Entry) : Files :=
  { f with entries := Keyed.put place e f.entries }

/-- Writes a file in a directory that is there. -/
def write? (f : Files) (p : Path) (c : Content) : Option Files := do
  let place ← f.place? p
  if p.isDirectoryOnly || f.isDirectoryAt place then none else some (f.put place (.file c))

/-- Creates the directories that names lead through from a place. -/
def createFrom? (f : Files) (here : Place) : List String → Option Files
  | [] => some f
  | name :: rest =>
      if !isName name then none
      else if name = ".." then createFrom? f here.dropLast rest
      else
        let next := here ++ [name]
        match f.entryAt next with
        | some .directory => createFrom? f next rest
        | some (.file _) => none
        | none => createFrom? (f.put next .directory) next rest

/-- Creates a directory with all those above it, as far as they are not there. -/
def createDirectories? (f : Files) (p : Path) : Option Files :=
  f.createFrom? (f.start p) p.names

end Files

end SemanticStore
