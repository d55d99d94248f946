import SemanticStore.Action
import SemanticStore.Settings.Store
import SemanticStore.Settings.Workspace
import SemanticStore.Yaml.Writer

/-!
# The store's section of the settings file

Store settings are kept in the section `store` of the workspace's settings file. Saving them leaves
the other sections as they are, and the section in its place.
-/

namespace SemanticStore.StoreSettings

def sectionName : String := "store"

/-- The settings in a document; none if its section does not decode. -/
def ofDocument? (document : Yaml.Value) : Option StoreSettings :=
  match document.get? sectionName with
  | some v => if v.untag.isNull then some default else decode? v
  | none => some default

/-- The settings in the settings file, or the defaults where there are none. -/
def load (files : Files) (app : WorkspaceSettings) : Except Fault StoreSettings :=
  let path := Text.quoted app.filePath.text
  if !files.isThere app.filePath then .ok default
  else match files.readText? app.filePath with
    | none => .error (.configuration ("Failed to read config at " ++ path ++ ": not a text"))
    | some text =>
        match Yaml.Value.ofText? text with
        | none => .error (.configuration ("Failed to parse config at " ++ path ++ ": not a value"))
        | some document =>
            match ofDocument? document with
            | some s => .ok s
            | none =>
                .error <| .configuration <|
                  "Invalid 'store' section in " ++ path ++ ": not as expected"

/-- Gives a key this value: in its place if it is there, else at the end. -/
def setSection (v : Yaml.Value) : List (Yaml.Value × Yaml.Value) → List (Yaml.Value × Yaml.Value)
  | [] => [(.string sectionName, v)]
  | (k, old) :: rest =>
      if k.same (.string sectionName) then (k, v) :: rest else (k, old) :: setSection v rest

/-- The entries of the settings file, none if it is not there. -/
def entriesOf (files : Files) (path : Path) : Except Fault (List (Yaml.Value × Yaml.Value)) :=
  if !files.isThere path then .ok []
  else match files.readText? path with
    | none => .error (.inputOutput "not a text")
    | some text =>
        match Yaml.Value.ofText? text with
        | none => .error (.serialization "not a value")
        | some .null => .ok []
        | some (.mapping entries) => .ok entries
        | some _ =>
            .error (.configuration ("Config at " ++ Text.quoted path.text ++ " is not a mapping"))

/-- Creates the directory of the settings file if it is not there. -/
def ensureParent (path : Path) (files : Files) : Except Fault Files :=
  match path.parent? with
  | none => .ok files
  | some parent =>
      match files.createDirectories? parent with
      | some files => .ok files
      | none => .error (.configuration "Failed to create config directory: a file is in the way")

/-- Writes the settings into the settings file. -/
def save (app : WorkspaceSettings) (s : StoreSettings) : Action Files Unit := do
  let path := app.filePath
  .write (ensureParent path)
  let entries ← .read fun files => entriesOf files path
  let text := (Yaml.Value.mapping (setSection (.ofJson s.toJson) entries)).write
  .write fun files =>
    match files.write? path (.bytes text.toUTF8.toList) with
    | some files => .ok files
    | none =>
        .error <| .configuration <|
          "Failed to write config to " ++ Text.quoted path.text ++ ": no such directory"

end SemanticStore.StoreSettings
