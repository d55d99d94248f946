import SemanticStore.Backend.Memory
import SemanticStore.Embedder.Choice
import SemanticStore.Settings.File
import SemanticStore.Store.Basic

/-!
# Opening a store

From settings to a store on a backend. The backend is opened first, so a database file is created
even if the embedder is then refused.
-/

namespace SemanticStore

/-- A store on the backend that its settings name. -/
inductive Opened where
  | memory (store : Store) (content : Memory)
  /-- on tables, which are kept in the file at a place, or nowhere -/
  | tables (store : Store) (content : Tables) (place : Option Place)

namespace Files

/-- The database in a file, which is created if it is not there. An empty file is an empty
database. -/
def databaseAt (f : Files) (place : Place) : Except Fault Tables :=
  match f.entryAt place with
  | some .directory => .error (.backend "Failed to open SQLite database: it is a directory")
  | some (.file (.database t)) => .ok t.ensure
  | some (.file (.bytes [])) => .ok .empty
  | some (.file (.bytes _)) => .error (.backend "Failed to create tables: file is not a database")
  | none =>
      if f.isDirectoryAt place.dropLast then .ok .empty
      else .error (.backend "Failed to open SQLite database: no such directory")

/-- Keeps a database in the file at a place. -/
def keep (place : Option Place) (t : Tables) (f : Files) : Files :=
  match place with
  | some place => f.put place (.file (.database t))
  | none => f

end Files

namespace StoreSettings

/-- The path of a database that is kept nowhere. -/
def privatePath : Path := ⟨":memory:"⟩

def defaultDatabasePath (workspace : Path) : Path :=
  (workspace.join WorkspaceSettings.directoryName).join ⟨"store.sqlite"⟩

/-- The database file of a store in a workspace. -/
def databasePath (s : StoreSettings) (workspace : Path) : Path :=
  match s.path with
  | some p =>
      let p : Path := ⟨p⟩
      if p.isAbsolute || p = privatePath then p else workspace.join p
  | none => defaultDatabasePath workspace

/-- Creates the directory of a database file if it is not there. -/
def ensureDatabaseDirectory (path : Path) (files : Files) : Except Fault Files :=
  match path.parent? with
  | none => .ok files
  | some parent =>
      match files.createDirectories? parent with
      | some files => .ok files
      | none => .error (.backend "Failed to create database directory: a file is in the way")

/-- Opens a database; its place is none if it is kept nowhere. -/
def openDatabase (path : Path) : Action Files (Tables × Option Place) :=
  if path = privatePath || path.text.isEmpty then return (.empty, none)
  else do
    .write (ensureDatabaseDirectory path)
    .change fun files => do
      let place := Files.lexicalPlace (files.start path) path.names
      let t ← files.databaseAt place
      .ok ((t, some place), files.keep (some place) t)

/-- The store that settings describe, with an embedder. -/
def storeWith (s : StoreSettings) (embedder : Embedder) : Store :=
  ⟨s.partition, embedder, s.metric, s.limit, s.embedder.batchSize⟩

/-- The store with the embedder that the settings name. -/
def connect (s : StoreSettings) (network : Network) : Except Fault Store :=
  ((s.embedder.connect network).exec .start).1.map s.storeWith

/-- Opens the store of a workspace. -/
def openStore (s : StoreSettings) (workspace : Path) (network : Network) : Action Files Opened :=
  match s.backend with
  | .memory => .lift ((s.connect network).map fun store => .memory store .empty)
  | .sqlite => do
      let (t, place) ← openDatabase (s.databasePath workspace)
      .lift ((s.connect network).map fun store => .tables store t place)

end StoreSettings

end SemanticStore
